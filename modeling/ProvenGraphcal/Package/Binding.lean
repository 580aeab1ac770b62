import ProvenGraphcal.Package.ValidationOutcome

/-!
# Binding a lockfile to manifests

Every entry of a validated lockfile is bound to the manifest of its package. Module paths are then
resolved in the dependency namespace of the package they stand in.
-/

namespace ProvenGraphcal

open SortedMap (mem_keys)

variable {Host : Type} {lib : UrlLibrary Host}

structure GitDependency (lib : UrlLibrary Host) where
  url : GitUrl lib
  rev : GitCommitHash

/-- A direct dependency; without a package name its alias is the name. -/
structure DependencySpec (lib : UrlLibrary Host) where
  package : Option PackageName
  git : GitDependency lib

def DependencySpec.expectedPackageName (spec : DependencySpec lib) (name : DependencyName) :
    PackageName :=
  spec.package.getD ⟨name.value, name.valid⟩

structure PackageManifest (lib : UrlLibrary Host) where
  name : PackageName
  sourceDir : PackageSourceDirectory
  dependencies : SortedMap DependencyName (DependencySpec lib)

/-- The errors of the lock validation that only binding reports. -/
inductive ManifestBindingError
  | manifestWithoutLockedPackage (package : PackageInstanceId)
  | missingPackageManifest (package : PackageInstanceId)
  | lockedManifestNameMismatch (package : PackageInstanceId) (locked manifest : PackageName)
  | lockedManifestSourceDirectoryMismatch (package : PackageInstanceId)
    (locked manifest : PackageSourceDirectory)
  | undeclaredDependencyEdge (package : PackageInstanceId) (dependency : DependencyName)
  | missingDependencyEdge (package : PackageInstanceId) (dependency : DependencyName)
  | missingDependencyTarget (package : PackageInstanceId) (dependency : DependencyName)
    (target : PackageInstanceId)
  | packageNameMismatch (package : PackageInstanceId) (dependency : DependencyName)
    (expected : PackageName) (target : PackageInstanceId) (actual : PackageName)
  | dependencySourceMismatch (package : PackageInstanceId) (dependency : DependencyName)

structure PackageGraph (lib : UrlLibrary Host) where
  root : PackageInstanceId
  packages : SortedMap PackageInstanceId (LockedPackage lib)

structure ValidatedPackageGraph (lib : UrlLibrary Host) where
  graph : PackageGraph lib
  manifests : SortedMap PackageInstanceId (PackageManifest lib)

def Lockfile.packageGraph (lockfile : Lockfile lib) : PackageGraph lib :=
  ⟨lockfile.root, packageMap lockfile.packages⟩

section Binding

variable [DecidableEq Host]

/-- The manifest of an entry. -/
def matchManifest (manifests : SortedMap PackageInstanceId (PackageManifest lib))
    (package : LockedPackage lib) :
    Except ManifestBindingError (LockedPackage lib × PackageManifest lib) :=
  match manifests.get? package.id with
  | none => .error (.missingPackageManifest package.id)
  | some manifest =>
    if package.name ≠ manifest.name then
      .error (.lockedManifestNameMismatch package.id package.name manifest.name)
    else if package.sourceDir ≠ manifest.sourceDir then
      .error (.lockedManifestSourceDirectoryMismatch package.id package.sourceDir
        manifest.sourceDir)
    else .ok (package, manifest)

/-- The source of the target is the one that the manifest asks for. -/
def GitDependency.isSource (git : GitDependency lib) : PackageSource lib → Bool
  | .git url requestedRev commit _ =>
    url = git.url && requestedRev = git.rev && commit = git.rev
  | .root => false

def checkManifestDependency (graph : PackageGraph lib) (package : LockedPackage lib)
    (declared : DependencyName × DependencySpec lib) : Except ManifestBindingError Unit :=
  let (dependency, spec) := declared
  match package.dependencies.get? dependency with
  | none => .error (.missingDependencyEdge package.id dependency)
  | some targetId =>
    match graph.packages.get? targetId with
    | none => .error (.missingDependencyTarget package.id dependency targetId)
    | some target =>
      let expected := spec.expectedPackageName dependency
      if target.name ≠ expected then
        .error (.packageNameMismatch package.id dependency expected target.id target.name)
      else if spec.git.isSource target.source then .ok ()
      else .error (.dependencySourceMismatch package.id dependency)

/-- The dependencies of an entry are those that its manifest declares. -/
def checkDependencies (graph : PackageGraph lib)
    (matched : LockedPackage lib × PackageManifest lib) : Except ManifestBindingError Unit := do
  let (package, manifest) := matched
  forM package.dependencies.keys fun dependency =>
    Checked.reject (manifest.dependencies.get? dependency).isNone
      (.undeclaredDependencyEdge package.id dependency)
  forM manifest.dependencies.entries (checkManifestDependency graph package)

def ValidatedLockfile.bindManifests {graphcal stdlib : Text}
    (valid : ValidatedLockfile lib graphcal stdlib)
    (manifests : SortedMap PackageInstanceId (PackageManifest lib)) :
    Except ManifestBindingError (ValidatedPackageGraph lib) := do
  let graph := valid.lockfile.packageGraph
  forM manifests.keys fun package =>
    Checked.reject (graph.packages.get? package).isNone (.manifestWithoutLockedPackage package)
  let matched ← valid.lockfile.packages.mapM (matchManifest manifests)
  forM matched (checkDependencies graph)
  return ⟨graph, manifests⟩

end Binding

inductive PackageResolutionRelation
  | selfReference
  | dependency (name : DependencyName)

structure SelectedPackageInstance where
  package : PackageInstanceId
  relation : PackageResolutionRelation

inductive PackageResolveError
  | unknownCurrentPackage (package : PackageInstanceId)
  | unknownDependency (package : PackageInstanceId) (packageName : PackageName) (name : Text)

/-- The package that the first segment of a module path selects. -/
def PackageGraph.resolvePackageSelector (graph : PackageGraph lib) (current : PackageInstanceId)
    (selector : Text) : Except PackageResolveError SelectedPackageInstance :=
  match graph.packages.get? current with
  | none => .error (.unknownCurrentPackage current)
  | some package =>
    if selector = package.name.value then .ok ⟨current, .selfReference⟩
    else
      match package.dependencies.entries.find? fun entry => entry.1.value = selector with
      | none => .error (.unknownDependency current package.name selector)
      | some (name, target) => .ok ⟨target, .dependency name⟩

def ValidatedPackageGraph.resolvePackageSelector (graph : ValidatedPackageGraph lib)
    (current : PackageInstanceId) (selector : Text) :
    Except PackageResolveError SelectedPackageInstance :=
  graph.graph.resolvePackageSelector current selector

/-! ## Matching manifests -/

/-- The manifests are those of the entries, with the same names, source directories and aliases, and
the sources of their dependencies. -/
structure ManifestsMatch (lockfile : Lockfile lib)
    (manifests : SortedMap PackageInstanceId (PackageManifest lib)) : Prop where
  ids : ∀ id, id ∈ manifests.keys ↔ ∃ package ∈ lockfile.packages, package.id = id
  name : ∀ package ∈ lockfile.packages, ∀ manifest,
    manifests.get? package.id = some manifest → package.name = manifest.name
  sourceDir : ∀ package ∈ lockfile.packages, ∀ manifest,
    manifests.get? package.id = some manifest → package.sourceDir = manifest.sourceDir
  aliases : ∀ package ∈ lockfile.packages, ∀ manifest,
    manifests.get? package.id = some manifest →
      ∀ dependency, dependency ∈ package.dependencies.keys ↔ dependency ∈ manifest.dependencies.keys
  source : ∀ package ∈ lockfile.packages, ∀ manifest,
    manifests.get? package.id = some manifest →
      ∀ dependency spec, manifest.dependencies.get? dependency = some spec →
        ∀ target ∈ lockfile.packages, package.dependencies.get? dependency = some target.id →
          ∃ treeHashes, target.source = .git spec.git.url spec.git.rev spec.git.rev treeHashes

/-- The targets of the dependencies have the package names that the manifests expect. -/
def ExpectedNames (lockfile : Lockfile lib)
    (manifests : SortedMap PackageInstanceId (PackageManifest lib)) : Prop :=
  ∀ package ∈ lockfile.packages, ∀ manifest, manifests.get? package.id = some manifest →
    ∀ dependency spec, manifest.dependencies.get? dependency = some spec →
      ∀ target ∈ lockfile.packages, package.dependencies.get? dependency = some target.id →
        target.name = spec.expectedPackageName dependency

variable {package : LockedPackage lib}

theorem packageMap_iff {packages : List (LockedPackage lib)}
    (hids : (packages.map LockedPackage.id).Nodup) {id : PackageInstanceId} :
    (packageMap packages).get? id = some package ↔ package ∈ packages ∧ package.id = id := by
  refine ⟨packageMap_eq_some, ?_⟩
  rintro ⟨hmem, rfl⟩
  have hkey : package.id ∈ (packages.map fun package => (package.id, package)).map Prod.fst := by
    rw [List.map_map]
    exact List.mem_map_of_mem hmem
  obtain ⟨entry, hentry⟩ := Option.ne_none_iff_exists'.mp (SortedMap.get?_ofList_ne_none hkey)
  have hentry : (packageMap packages).get? package.id = some entry := hentry
  obtain ⟨hmem', hid⟩ := packageMap_eq_some hentry
  rw [hentry, List.inj_on_of_nodup_map hids hmem' hmem hid]

variable {graph : PackageGraph lib} {selector : Text}

section Binding

variable [DecidableEq Host]
variable {manifests : SortedMap PackageInstanceId (PackageManifest lib)}

omit [DecidableEq Host] in
theorem matchManifest_eq_ok {matched : LockedPackage lib × PackageManifest lib} :
    matchManifest manifests package = .ok matched ↔
      ∃ manifest, manifests.get? package.id = some manifest ∧ package.name = manifest.name ∧
        package.sourceDir = manifest.sourceDir ∧ matched = (package, manifest) := by
  unfold matchManifest
  cases hget : manifests.get? package.id with
  | none => simp
  | some manifest =>
    simp only [Option.some.injEq, exists_eq_left']
    split_ifs with hname hdir
    · exact ⟨nofun, fun h => absurd h.1 hname⟩
    · exact ⟨nofun, fun h => absurd h.2.1 hdir⟩
    · rw [not_not] at hname hdir
      rw [Except.ok.injEq]
      exact ⟨fun h => ⟨hname, hdir, h.symm⟩, fun h => h.2.2.symm⟩

theorem isSource_iff {git : GitDependency lib} {source : PackageSource lib} :
    git.isSource source = true ↔
      ∃ treeHashes, source = .git git.url git.rev git.rev treeHashes := by
  cases source with
  | root => exact ⟨nofun, fun ⟨_, h⟩ => (nomatch h)⟩
  | git url requestedRev commit treeHashes =>
    simp only [GitDependency.isSource, Bool.and_eq_true, decide_eq_true_eq, PackageSource.git.injEq]
    constructor
    · rintro ⟨⟨hurl, hrequested⟩, hcommit⟩
      exact ⟨treeHashes, hurl, hrequested, hcommit, rfl⟩
    · rintro ⟨_, hurl, hrequested, hcommit, -⟩
      exact ⟨⟨hurl, hrequested⟩, hcommit⟩

theorem checkManifestDependency_eq_ok {dependency : DependencyName} {spec : DependencySpec lib} :
    checkManifestDependency graph package (dependency, spec) = .ok () ↔
      ∃ targetId target, package.dependencies.get? dependency = some targetId ∧
        graph.packages.get? targetId = some target ∧
        target.name = spec.expectedPackageName dependency ∧
        ∃ treeHashes, target.source = .git spec.git.url spec.git.rev spec.git.rev treeHashes := by
  unfold checkManifestDependency
  dsimp only
  cases hedge : package.dependencies.get? dependency with
  | none => simp
  | some targetId =>
    cases htarget : graph.packages.get? targetId with
    | none => simp [htarget]
    | some target =>
      simp only [Option.some.injEq, exists_eq_left', exists_and_left, htarget, ← isSource_iff]
      split_ifs with hname hsource
      · exact ⟨nofun, fun h => absurd h.1 hname⟩
      · exact ⟨fun _ => ⟨not_not.mp hname, hsource⟩, fun _ => rfl⟩
      · exact ⟨nofun, fun h => absurd h.2 hsource⟩

theorem checkDependencies_eq_ok {manifest : PackageManifest lib} :
    checkDependencies graph (package, manifest) = .ok () ↔
      (∀ dependency ∈ package.dependencies.keys, dependency ∈ manifest.dependencies.keys) ∧
      ∀ dependency spec, manifest.dependencies.get? dependency = some spec →
        checkManifestDependency graph package (dependency, spec) = .ok () := by
  rw [checkDependencies, Checked.bind_eq_ok]
  simp only [Checked.forM_eq_ok, Checked.reject_eq_ok, Option.isNone_iff_eq_none,
    SortedMap.get?_eq_none, not_not, SortedMap.get?_eq_some, Prod.forall, exists_const]

theorem bindManifests_eq_ok {graphcal stdlib : Text} {valid : ValidatedLockfile lib graphcal stdlib}
    {graph : ValidatedPackageGraph lib} :
    valid.bindManifests manifests = .ok graph ↔
      (∀ id ∈ manifests.keys, (valid.lockfile.packageGraph.packages.get? id).isSome) ∧
      (∀ package ∈ valid.lockfile.packages, ∃ manifest,
        matchManifest manifests package = .ok (package, manifest) ∧
        checkDependencies valid.lockfile.packageGraph (package, manifest) = .ok ()) ∧
      graph = ⟨valid.lockfile.packageGraph, manifests⟩ := by
  rw [ValidatedLockfile.bindManifests]
  simp only [Checked.bind_eq_ok, Checked.forM_eq_ok, Checked.reject_eq_ok,
    Option.isNone_iff_eq_none, ← ne_eq, Option.ne_none_iff_isSome, exists_const]
  constructor
  · rintro ⟨hids, matched, hmatched, hdependencies, hgraph⟩
    refine ⟨hids, fun package hpackage => ?_, (Except.ok.inj hgraph).symm⟩
    obtain ⟨item, hitem, hmatch⟩ :=
      Checked.exists_of_forall₂_left (Checked.mapM_eq_ok.mp hmatched) hpackage
    obtain ⟨manifest, -, -, -, rfl⟩ := matchManifest_eq_ok.mp hmatch
    exact ⟨manifest, hmatch, hdependencies _ hitem⟩
  · rintro ⟨hids, hpackages, rfl⟩
    have hmatch : ∀ package ∈ valid.lockfile.packages,
        ∃ item, matchManifest manifests package = .ok item := by
      intro package hpackage
      obtain ⟨manifest, hmatch, -⟩ := hpackages package hpackage
      exact ⟨_, hmatch⟩
    obtain ⟨matched, hmatched⟩ := Checked.exists_mapM_eq_ok hmatch
    refine ⟨hids, matched, hmatched, fun item hitem => ?_, rfl⟩
    obtain ⟨package, hpackage, hok⟩ :=
      Checked.exists_of_forall₂_right (Checked.mapM_eq_ok.mp hmatched) hitem
    obtain ⟨manifest, hmanifest, hdependencies⟩ := hpackages package hpackage
    cases hok.symm.trans hmanifest
    exact hdependencies

/-- Binding succeeds on manifests that match, whose expected names the targets have. -/
theorem bindManifests_isOk_iff {graphcal stdlib : Text}
    (valid : ValidatedLockfile lib graphcal stdlib)
    (manifests : SortedMap PackageInstanceId (PackageManifest lib)) :
    (∃ graph, valid.bindManifests manifests = .ok graph) ↔
      ManifestsMatch valid.lockfile manifests ∧ ExpectedNames valid.lockfile manifests := by
  obtain ⟨-, -, hwell⟩ := check_eq_ok.mp valid.checked
  have hmap : ∀ {id package}, valid.lockfile.packageGraph.packages.get? id = some package ↔
      package ∈ valid.lockfile.packages ∧ package.id = id := packageMap_iff hwell.ids
  have hids : ∀ id, (valid.lockfile.packageGraph.packages.get? id).isSome ↔
      ∃ package ∈ valid.lockfile.packages, package.id = id := by
    intro id
    rw [Option.isSome_iff_exists]
    simp only [hmap]
  constructor
  · rintro ⟨graph, hgraph⟩
    obtain ⟨hkeys, hpackages, -⟩ := bindManifests_eq_ok.mp hgraph
    -- what the checks of an entry say about its manifest
    have hmanifest : ∀ package ∈ valid.lockfile.packages, ∀ manifest,
        manifests.get? package.id = some manifest → package.name = manifest.name ∧
          package.sourceDir = manifest.sourceDir ∧
          checkDependencies valid.lockfile.packageGraph (package, manifest) = .ok () := by
      intro package hpackage manifest hget
      obtain ⟨manifest', hmatch, hdependencies⟩ := hpackages package hpackage
      obtain ⟨_, hget', hname, hdir, heq⟩ := matchManifest_eq_ok.mp hmatch
      cases hget.symm.trans hget'
      cases heq
      exact ⟨hname, hdir, hdependencies⟩
    have hdeclared : ∀ package ∈ valid.lockfile.packages, ∀ manifest,
        manifests.get? package.id = some manifest → ∀ dependency spec,
          manifest.dependencies.get? dependency = some spec → ∃ targetId target,
            package.dependencies.get? dependency = some targetId ∧
            (target ∈ valid.lockfile.packages ∧ target.id = targetId) ∧
            target.name = spec.expectedPackageName dependency ∧
            ∃ treeHashes,
              target.source = .git spec.git.url spec.git.rev spec.git.rev treeHashes := by
      intro package hpackage manifest hget dependency spec hspec
      obtain ⟨-, -, hdependencies⟩ := hmanifest package hpackage manifest hget
      have hok := (checkDependencies_eq_ok.mp hdependencies).2 dependency spec hspec
      simpa only [hmap] using checkManifestDependency_eq_ok.mp hok
    refine ⟨⟨fun id => ⟨fun hid => (hids id).mp (hkeys id hid), ?_⟩, ?_, ?_, ?_, ?_⟩, ?_⟩
    · rintro ⟨package, hpackage, rfl⟩
      obtain ⟨manifest, hmatch, -⟩ := hpackages package hpackage
      obtain ⟨_, hget, -⟩ := matchManifest_eq_ok.mp hmatch
      exact mem_keys.mpr ⟨_, hget⟩
    · intro package hpackage manifest hget
      exact (hmanifest package hpackage manifest hget).1
    · intro package hpackage manifest hget
      exact (hmanifest package hpackage manifest hget).2.1
    · intro package hpackage manifest hget dependency
      refine ⟨(checkDependencies_eq_ok.mp (hmanifest package hpackage manifest hget).2.2).1 _,
        fun hdependency => ?_⟩
      obtain ⟨spec, hspec⟩ := mem_keys.mp hdependency
      obtain ⟨targetId, -, hedge, -⟩ :=
        hdeclared package hpackage manifest hget dependency spec hspec
      exact mem_keys.mpr ⟨targetId, hedge⟩
    · intro package hpackage manifest hget dependency spec hspec target htarget hedge
      obtain ⟨_, target', hedge', ⟨htarget', rfl⟩, -, hsource⟩ :=
        hdeclared package hpackage manifest hget dependency spec hspec
      have hid := Option.some.inj (hedge.symm.trans hedge')
      rwa [List.inj_on_of_nodup_map hwell.ids htarget htarget' hid]
    · intro package hpackage manifest hget dependency spec hspec target htarget hedge
      obtain ⟨_, target', hedge', ⟨htarget', rfl⟩, hname, -⟩ :=
        hdeclared package hpackage manifest hget dependency spec hspec
      have hid := Option.some.inj (hedge.symm.trans hedge')
      rwa [List.inj_on_of_nodup_map hwell.ids htarget htarget' hid]
  · rintro ⟨hmatch, hnames⟩
    refine ⟨_, bindManifests_eq_ok.mpr
      ⟨fun id hid => (hids id).mpr ((hmatch.ids id).mp hid), ?_, rfl⟩⟩
    intro package hpackage
    obtain ⟨manifest, hget⟩ := mem_keys.mp ((hmatch.ids _).mpr ⟨package, hpackage, rfl⟩)
    refine ⟨manifest, matchManifest_eq_ok.mpr ⟨manifest, hget, hmatch.name _ hpackage _ hget,
      hmatch.sourceDir _ hpackage _ hget, rfl⟩, checkDependencies_eq_ok.mpr ⟨?_, ?_⟩⟩
    · intro dependency
      exact (hmatch.aliases _ hpackage _ hget dependency).mp
    · intro dependency spec hspec
      have hkey := (hmatch.aliases _ hpackage _ hget dependency).mpr
        (mem_keys.mpr ⟨spec, hspec⟩)
      obtain ⟨targetId, hedge⟩ := mem_keys.mp hkey
      have hmem : targetId ∈ package.targets := by
        rw [LockedPackage.targets, List.mem_map]
        exact ⟨_, SortedMap.get?_eq_some.mp hedge, rfl⟩
      obtain ⟨target, htarget, rfl⟩ := hwell.targets package hpackage targetId hmem
      exact checkManifestDependency_eq_ok.mpr ⟨_, target, hedge, hmap.mpr ⟨htarget, rfl⟩,
        hnames _ hpackage _ hget _ _ hspec _ htarget hedge,
        hmatch.source _ hpackage _ hget _ _ hspec _ htarget hedge⟩

omit [DecidableEq Host] in
/-- Aliases are looked up by their text. -/
theorem find?_alias {dependencies : SortedMap DependencyName PackageInstanceId}
    {name : DependencyName} {target : PackageInstanceId} :
    (dependencies.entries.find? fun entry => entry.1.value = selector) = some (name, target) ↔
      name.value = selector ∧ dependencies.get? name = some target := by
  rw [SortedMap.get?_eq_some]
  constructor
  · intro h
    exact ⟨by simpa using List.find?_some h, List.mem_of_find?_eq_some h⟩
  · rintro ⟨hvalue, hmem⟩
    cases hfind : dependencies.entries.find? fun entry => entry.1.value = selector with
    | none =>
      have hno := List.find?_eq_none.mp hfind _ hmem
      simp only [hvalue, decide_true, not_true_eq_false] at hno
    | some entry =>
      have hentry : entry.1.value = selector := by simpa using List.find?_some hfind
      have hname : entry.1 = name := DependencyName.value_injective (hentry.trans hvalue.symm)
      have hfound := SortedMap.get?_eq_some.mpr (List.mem_of_find?_eq_some hfind)
      rw [hname, SortedMap.get?_eq_some.mpr hmem] at hfound
      rw [Option.some.inj hfound, ← hname]

/-- What a selector in a package selects. -/
inductive Selects (package : LockedPackage lib) : Text → SelectedPackageInstance → Prop
  | self : Selects package package.name.value ⟨package.id, .selfReference⟩
  | dependency {name : DependencyName} {target : PackageInstanceId}
    (edge : package.dependencies.get? name = some target) :
    Selects package name.value ⟨target, .dependency name⟩

omit [DecidableEq Host] in
theorem resolvePackageSelector_eq_ok {lockfile : Lockfile lib} (hwell : lockfile.WellFormed)
    (halias : lockfile.NoSelfAlias) {current : PackageInstanceId}
    {selected : SelectedPackageInstance} :
    lockfile.packageGraph.resolvePackageSelector current selector = .ok selected ↔
      ∃ package ∈ lockfile.packages, package.id = current ∧ Selects package selector selected := by
  unfold PackageGraph.resolvePackageSelector
  cases hget : lockfile.packageGraph.packages.get? current with
  | none =>
    refine ⟨nofun, ?_⟩
    rintro ⟨package, hpackage, rfl, -⟩
    rw [Lockfile.packageGraph, (packageMap_iff hwell.ids).mpr ⟨hpackage, rfl⟩] at hget
    cases hget
  | some package =>
    obtain ⟨hpackage, rfl⟩ := packageMap_eq_some hget
    have honly : ∀ package' ∈ lockfile.packages, package'.id = package.id → package' = package :=
      fun package' hpackage' hid => List.inj_on_of_nodup_map hwell.ids hpackage' hpackage hid
    dsimp only
    split_ifs with hself
    · constructor
      · intro h
        cases h
        exact ⟨package, hpackage, rfl, hself ▸ .self⟩
      · rintro ⟨package', hpackage', hid, hselects⟩
        rw [honly package' hpackage' hid] at hselects
        subst hself
        generalize hvalue : package.name.value = value at hselects
        cases hselects with
        | self => rfl
        | @dependency name target edge =>
          -- the own name is no alias
          have hname : name = package.name.toDependency :=
            DependencyName.value_injective hvalue.symm
          rw [hname, halias package hpackage] at edge
          cases edge
    · constructor
      · intro h
        split at h
        next => cases h
        next name target hfind =>
          cases h
          obtain ⟨rfl, hedge⟩ := find?_alias.mp hfind
          exact ⟨package, hpackage, rfl, .dependency hedge⟩
      · rintro ⟨package', hpackage', hid, hselects⟩
        rw [honly package' hpackage' hid] at hselects
        cases hselects with
        | self => exact absurd rfl hself
        | dependency edge => rw [find?_alias.mpr ⟨rfl, edge⟩]

/-- Binding succeeds on matching manifests; selectors then select the package itself under its own
name, and else the target of a declared alias. -/
theorem bind_and_resolve {graphcal stdlib : Text} (valid : ValidatedLockfile lib graphcal stdlib)
    (manifests : SortedMap PackageInstanceId (PackageManifest lib)) :
    ((∃ graph, valid.bindManifests manifests = .ok graph) ↔
      ManifestsMatch valid.lockfile manifests ∧ ExpectedNames valid.lockfile manifests) ∧
    ∀ graph, valid.bindManifests manifests = .ok graph →
      (∀ current selector selected,
        graph.resolvePackageSelector current selector = .ok selected ↔
          ∃ package ∈ valid.lockfile.packages,
            package.id = current ∧ Selects package selector selected) ∧
      ∀ package ∈ valid.lockfile.packages, ∀ name target,
        package.dependencies.get? name = some target →
          name.value ≠ package.name.value ∧
          (∃ entry ∈ valid.lockfile.packages, entry.id = target) ∧
          ∃ manifest, manifests.get? package.id = some manifest ∧
            name ∈ manifest.dependencies.keys := by
  obtain ⟨-, halias, hwell⟩ := check_eq_ok.mp valid.checked
  refine ⟨bindManifests_isOk_iff valid manifests, fun graph hgraph => ⟨?_, ?_⟩⟩
  · intro current selector selected
    obtain ⟨-, -, rfl⟩ := bindManifests_eq_ok.mp hgraph
    exact resolvePackageSelector_eq_ok hwell halias
  · intro package hpackage name target hedge
    obtain ⟨hmatch, -⟩ := (bindManifests_isOk_iff valid manifests).mp ⟨graph, hgraph⟩
    have hmem : target ∈ package.targets := by
      rw [LockedPackage.targets, List.mem_map]
      exact ⟨_, SortedMap.get?_eq_some.mp hedge, rfl⟩
    obtain ⟨manifest, hget⟩ := mem_keys.mp ((hmatch.ids _).mpr ⟨package, hpackage, rfl⟩)
    refine ⟨fun hvalue => ?_, hwell.targets package hpackage target hmem, manifest, hget, ?_⟩
    · have hname : name = package.name.toDependency := DependencyName.value_injective hvalue
      rw [hname, halias package hpackage] at hedge
      cases hedge
    · exact (hmatch.aliases _ hpackage _ hget name).mp (mem_keys.mpr ⟨target, hedge⟩)

end Binding

namespace AliasedName

open SelfAlias (app appId commit source sourceDir units unitsId url urls)

/-- The package `app` has the dependency `units` under the alias `lengths`. -/
def lockfile : Lockfile urls where
  lockVersion := ProvenGraphcal.lockVersion
  createdBy := []
  graphcalVersion := []
  stdlibVersion := []
  root := appId
  packages := [
    { id := appId
      name := app
      sourceDir := sourceDir
      source := .root
      dependencies := .ofList [(⟨"lengths".toList, by decide⟩, unitsId)] },
    { id := unitsId
      name := units
      sourceDir := sourceDir
      source := source
      dependencies := .empty }]
  plugins := []

def valid : ValidatedLockfile urls [] [] := ⟨lockfile, by decide +kernel⟩

/-- The manifest of `app` declares the alias without a package name. -/
def manifests : SortedMap PackageInstanceId (PackageManifest urls) :=
  .ofList [
    (appId,
      { name := app
        sourceDir := sourceDir
        dependencies := .ofList [(⟨"lengths".toList, by decide⟩, ⟨none, ⟨url, commit⟩⟩)] }),
    (unitsId,
      { name := units
        sourceDir := sourceDir
        dependencies := .empty })]

theorem matching_manifests_rejected :
    ¬ ((∃ graph, valid.bindManifests manifests = .ok graph) ↔
      ManifestsMatch valid.lockfile manifests) := by
  have hkeys : manifests.keys = lockfile.packages.map LockedPackage.id := by decide +kernel
  have hmanifest : ∀ package ∈ lockfile.packages, ∀ manifest ∈ manifests.get? package.id,
      package.name = manifest.name ∧ package.sourceDir = manifest.sourceDir ∧
        package.dependencies.keys = manifest.dependencies.keys ∧
        ∀ declared ∈ manifest.dependencies.entries, ∀ target ∈ lockfile.packages,
          package.dependencies.get? declared.1 = some target.id →
            declared.2.git.isSource target.source = true := by
    decide +kernel
  have hmatch : ManifestsMatch lockfile manifests := by
    refine ⟨fun id => ?_, ?_, ?_, ?_, ?_⟩
    · rw [hkeys, List.mem_map]
    · intro package hpackage manifest hget
      exact (hmanifest package hpackage manifest hget).1
    · intro package hpackage manifest hget
      exact (hmanifest package hpackage manifest hget).2.1
    · intro package hpackage manifest hget dependency
      rw [(hmanifest package hpackage manifest hget).2.2.1]
    · intro package hpackage manifest hget dependency spec hspec target htarget hedge
      exact isSource_iff.mp ((hmanifest package hpackage manifest hget).2.2.2 (dependency, spec)
        (SortedMap.get?_eq_some.mp hspec) target htarget hedge)
  intro h
  have hok : (valid.bindManifests manifests).isOk = true := by
    obtain ⟨graph, hgraph⟩ := h.mpr hmatch
    rw [hgraph]
    rfl
  have hfails : (valid.bindManifests manifests).isOk = false := by decide +kernel
  rw [hfails] at hok
  cases hok

end AliasedName

end ProvenGraphcal
