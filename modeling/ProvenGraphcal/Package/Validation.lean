import Mathlib.Data.List.Lex
import Mathlib.Order.Lex
import ProvenGraphcal.Library.SortedMap
import ProvenGraphcal.Library.Worklist
import ProvenGraphcal.Package.GitUrl

/-!
# Names, identifiers and digests of packages

Every type here is a text, or the parts of one, that its constructor has checked.
-/

namespace ProvenGraphcal

/-- Lower snake case, starting with a letter. -/
def isValidName (value : Text) : Bool :=
  !value.isEmpty && value.head?.any Char.isLower &&
    value.all fun c => c.isLower || c.isDigit || c == '_'

structure PackageName where
  value : Text
  valid : isValidName value = true

structure DependencyName where
  value : Text
  valid : isValidName value = true

structure PackageNameError where
  value : Text
  deriving DecidableEq

structure DependencyNameError where
  value : Text
  deriving DecidableEq

namespace PackageName

theorem ext_value {a b : PackageName} (h : a.value = b.value) : a = b := by
  cases a
  cases b
  congr

instance : DecidableEq PackageName := fun a b =>
  decidable_of_iff (a.value = b.value) ⟨ext_value, congrArg value⟩

def new (value : Text) : Except PackageNameError PackageName :=
  if h : isValidName value then .ok ⟨value, h⟩ else .error ⟨value⟩

/-- The alias that the package name would be as a dependency. -/
def toDependency (name : PackageName) : DependencyName := ⟨name.value, name.valid⟩

end PackageName

namespace DependencyName

theorem value_injective : Function.Injective value := fun a b h => by
  cases a
  cases b
  congr

instance : LinearOrder DependencyName := LinearOrder.lift' value value_injective

def new (value : Text) : Except DependencyNameError DependencyName :=
  if h : isValidName value then .ok ⟨value, h⟩ else .error ⟨value⟩

end DependencyName

def isValidInstanceId (value : Text) : Bool :=
  !value.isEmpty && value.all fun c => c.isAlphanum || c == '-' || c == '_'

/-- Opaque identifier for one locked package instance. -/
structure PackageInstanceId where
  value : Text
  valid : isValidInstanceId value = true

structure PackageInstanceIdError where
  value : Text
  deriving DecidableEq

namespace PackageInstanceId

theorem value_injective : Function.Injective value := fun a b h => by
  cases a
  cases b
  congr

instance : LinearOrder PackageInstanceId := LinearOrder.lift' value value_injective

def new (value : Text) : Except PackageInstanceIdError PackageInstanceId :=
  if h : isValidInstanceId value then .ok ⟨value, h⟩ else .error ⟨value⟩

end PackageInstanceId

def hexDigits : Text := "0123456789abcdef".toList

def isHexDigit (c : Char) : Bool := c ∈ "0123456789abcdefABCDEF".toList

/-- Forty hexadecimal digits; a text with other characters fails whatever its length in bytes. -/
def isCommitHash (value : Text) : Bool := value.length == 40 && value.all isHexDigit

/-- A full commit hash, in lower case. -/
structure GitCommitHash where
  value : Text
  valid : isCommitHash value = true
  lower : value.map Char.toLower = value

structure GitRevError where
  value : Text
  deriving DecidableEq

theorem isHexDigit_toLower : ∀ c, isHexDigit c = true →
    isHexDigit c.toLower = true ∧ c.toLower.toLower = c.toLower := by
  have hall : ("0123456789abcdefABCDEF".toList.all fun c =>
      isHexDigit c.toLower && c.toLower.toLower == c.toLower) = true := by
    decide
  intro c hc
  have h := List.all_eq_true.mp hall c (of_decide_eq_true hc)
  rwa [Bool.and_eq_true, beq_iff_eq] at h

theorem isCommitHash_toLower {value : Text} (h : isCommitHash value = true) :
    isCommitHash (value.map Char.toLower) = true ∧
      (value.map Char.toLower).map Char.toLower = value.map Char.toLower := by
  simp only [isCommitHash, Bool.and_eq_true, List.all_eq_true] at h ⊢
  rw [List.length_map, List.map_map]
  refine ⟨⟨h.1, fun c hc => ?_⟩, List.map_congr_left fun c hc => (isHexDigit_toLower c (h.2 c hc)).2⟩
  obtain ⟨d, hd, rfl⟩ := List.mem_map.mp hc
  exact (isHexDigit_toLower d (h.2 d hd)).1

namespace GitCommitHash

theorem ext_value {a b : GitCommitHash} (h : a.value = b.value) : a = b := by
  cases a
  cases b
  congr

instance : DecidableEq GitCommitHash := fun a b =>
  decidable_of_iff (a.value = b.value) ⟨ext_value, congrArg value⟩

def new (value : Text) : Except GitRevError GitCommitHash :=
  if h : isCommitHash value then
    .ok ⟨value.map Char.toLower, (isCommitHash_toLower h).1, (isCommitHash_toLower h).2⟩
  else .error ⟨value⟩

end GitCommitHash

/-- Thirty-two bytes. -/
structure Sha256Digest where
  bytes : List UInt8
  length_eq : bytes.length = 32

structure Sha256DigestError where
  value : Text
  deriving DecidableEq

/-- A digit of a digest; capitals are no canonical spelling. -/
def hexNibble (c : Char) : Option UInt8 :=
  if c ∈ hexDigits then some (UInt8.ofNat (hexDigits.idxOf c)) else none

/-- The bytes that pairs of digits spell. -/
def hexPairs : Text → Option (List UInt8)
  | [] => some []
  | [_] => none
  | high :: low :: rest => do
    let high ← hexNibble high
    let low ← hexNibble low
    let bytes ← hexPairs rest
    return (high <<< 4 ||| low) :: bytes

theorem hexPairs_length : ∀ {value : Text} {bytes : List UInt8}, hexPairs value = some bytes →
    value.length = 2 * bytes.length
  | [], bytes, h => by
    cases h
    rfl
  | [_], _, h => nomatch h
  | high :: low :: rest, bytes, h => by
    rw [hexPairs, Option.bind_eq_bind, Option.bind_eq_some_iff] at h
    obtain ⟨high, -, h⟩ := h
    obtain ⟨low, -, h⟩ := Option.bind_eq_some_iff.mp h
    obtain ⟨tail, htail, h⟩ := Option.bind_eq_some_iff.mp h
    cases h
    have hrest := hexPairs_length htail
    simp only [List.length_cons]
    omega

namespace Sha256Digest

theorem ext_bytes {a b : Sha256Digest} (h : a.bytes = b.bytes) : a = b := by
  cases a
  cases b
  congr

instance : DecidableEq Sha256Digest := fun a b =>
  decidable_of_iff (a.bytes = b.bytes) ⟨ext_bytes, congrArg bytes⟩

/-- Exactly sixty-four digits; a text with other characters fails whatever its length in bytes. -/
def new (value : Text) : Except Sha256DigestError Sha256Digest :=
  if hlen : value.length = 64 then
    match h : hexPairs value with
    | some bytes => .ok ⟨bytes, by have := hexPairs_length h; omega⟩
    | none => .error ⟨value⟩
  else .error ⟨value⟩

def toText (digest : Sha256Digest) : Text :=
  digest.bytes.flatMap fun (byte : UInt8) =>
    [hexDigits.getD (byte >>> 4).toNat '0', hexDigits.getD (byte &&& 15).toNat '0']

end Sha256Digest

inductive PackageSourceDirectoryErrorReason
  | empty
  | absolute
  | backslash
  | prefixAmbiguity
  | emptyComponent
  | currentDirectory
  | parentDirectory
  | controlCharacter
  deriving DecidableEq

def parseSourceDirectoryComponent (component : Text) :
    Except PackageSourceDirectoryErrorReason Text :=
  if component.isEmpty then .error .emptyComponent
  else if component = ".".toList then .error .currentDirectory
  else if component = "..".toList then .error .parentDirectory
  else if component.any Text.isControl then .error .controlCharacter
  else .ok component

def parseSourceDirectory (value : Text) : Except PackageSourceDirectoryErrorReason (List Text) :=
  if value.isEmpty then .error .empty
  else if value.startsWith '/' then .error .absolute
  else if value.elem '\\' then .error .backslash
  else if value.elem ':' then .error .prefixAmbiguity
  else (value.splitOn '/').mapM parseSourceDirectoryComponent

/-- A portable package-relative directory, as its components. -/
structure PackageSourceDirectory where
  components : List Text
  parsed : ∃ value, parseSourceDirectory value = .ok components

namespace PackageSourceDirectory

theorem ext_components {a b : PackageSourceDirectory} (h : a.components = b.components) :
    a = b := by
  cases a
  cases b
  congr

instance : DecidableEq PackageSourceDirectory := fun a b =>
  decidable_of_iff (a.components = b.components) ⟨ext_components, congrArg components⟩

def new (value : Text) : Except PackageSourceDirectoryErrorReason PackageSourceDirectory :=
  match h : parseSourceDirectory value with
  | .ok components => .ok ⟨components, value, h⟩
  | .error reason => .error reason

def toText (dir : PackageSourceDirectory) : Text := Text.joinWith '/' dir.components

end PackageSourceDirectory

/-- The components of a plain relative path to a `.wasm` file. -/
def parsePluginPath (path : Text) : Option (List Text) :=
  let components := path.splitOn '/'
  let validComponents := !path.elem '\\' && !path.elem ':' && !path.any Text.isControl &&
    components.all fun component =>
      !component.isEmpty && component ≠ ".".toList && component ≠ "..".toList
  if !validComponents || !(".wasm".toList.isSuffixOf path) then none else some components

/-- A root-relative path to one plugin artifact, as its components. -/
structure PluginArtifactPath where
  components : List Text
  parsed : ∃ value, parsePluginPath value = some components

structure PluginArtifactPathError where
  path : Text
  deriving DecidableEq

namespace PluginArtifactPath

theorem components_injective : Function.Injective components := fun a b h => by
  cases a
  cases b
  congr

instance : LinearOrder PluginArtifactPath := LinearOrder.lift' components components_injective

def new (path : Text) : Except PluginArtifactPathError PluginArtifactPath :=
  match h : parsePluginPath path with
  | some components => .ok ⟨components, path, h⟩
  | none => .error ⟨path⟩

def toText (path : PluginArtifactPath) : Text := Text.joinWith '/' path.components

end PluginArtifactPath

/-!
# The lockfile

Locked packages with their sources and dependency edges, and the errors of its validation.
-/

variable {Host : Type} {lib : UrlLibrary Host}

structure SourceTreeHashes where
  sha256 : Sha256Digest
  deriving DecidableEq

/-- The project root, or a commit of a remote repository with the hashes of its tree. -/
inductive PackageSource (lib : UrlLibrary Host)
  | root
  | git (url : GitUrl lib) (requestedRev commit : GitCommitHash) (treeHashes : SourceTreeHashes)

structure LockedPackage (lib : UrlLibrary Host) where
  id : PackageInstanceId
  name : PackageName
  sourceDir : PackageSourceDirectory
  source : PackageSource lib
  dependencies : SortedMap DependencyName PackageInstanceId

structure LockedPlugin where
  path : PluginArtifactPath
  sha256 : Sha256Digest

structure Lockfile (lib : UrlLibrary Host) where
  lockVersion : UInt64
  createdBy : Text
  graphcalVersion : Text
  stdlibVersion : Text
  root : PackageInstanceId
  packages : List (LockedPackage lib)
  plugins : List LockedPlugin

inductive CanonicalPackageSource (lib : UrlLibrary Host)
  | root
  | git (url : GitUrl lib) (commit : GitCommitHash)
  deriving DecidableEq

def PackageSource.canonicalKey : PackageSource lib → CanonicalPackageSource lib
  | root => .root
  | git url _ commit _ => .git url commit

structure CanonicalPackageInstance (lib : UrlLibrary Host) where
  name : PackageName
  sourceDir : PackageSourceDirectory
  source : CanonicalPackageSource lib
  dependencies : SortedMap DependencyName PackageInstanceId
  deriving DecidableEq

def LockedPackage.canonicalInstance (package : LockedPackage lib) :
    CanonicalPackageInstance lib where
  name := package.name
  sourceDir := package.sourceDir
  source := package.source.canonicalKey
  dependencies := package.dependencies

structure CanonicalGitSource (lib : UrlLibrary Host) where
  url : GitUrl lib
  commit : GitCommitHash
  deriving DecidableEq

/-- A non-empty path through one dependency cycle. -/
structure LockedDependencyCycle where
  start : PackageInstanceId
  successors : List PackageInstanceId
  deriving DecidableEq

structure GitSourceDigestConflict (lib : UrlLibrary Host) where
  first : PackageInstanceId
  second : PackageInstanceId
  url : GitUrl lib
  commit : GitCommitHash
  firstDigest : Sha256Digest
  secondDigest : Sha256Digest
  deriving DecidableEq

inductive LockValidationError (lib : UrlLibrary Host)
  | unsupportedLockVersion (version : UInt64)
  | graphcalVersionMismatch (lockfile active : Text)
  | stdlibVersionMismatch (lockfile active : Text)
  | duplicatePackageId (id : PackageInstanceId)
  | missingRoot (root : PackageInstanceId)
  | rootPackageMustUseRootSource (package : PackageInstanceId)
  | rootSourceOnDependency (package : PackageInstanceId)
  | missingDependencyTarget (package : PackageInstanceId) (dependency : DependencyName)
    (target : PackageInstanceId)
  | selfDependencyAlias (package : PackageInstanceId) (dependency : DependencyName)
  | dependencyCycle (cycle : LockedDependencyCycle)
  | unreachablePackage (package : PackageInstanceId)
  | conflictingGitSourceDigest (conflict : GitSourceDigestConflict lib)
  | duplicateCanonicalPackage (first second : PackageInstanceId)
  | duplicatePluginPath (path : Text)
  deriving DecidableEq

/-!
# Validating a lockfile

The checks of `validated` in the order of the source. The search for a dependency cycle and the
walk over the reachable packages are loops over explicit stacks.
-/

open Checked

def lockVersion : UInt64 := 1

/-- The package entries by id; a later entry replaces an earlier one of its id. -/
def packageMap (packages : List (LockedPackage lib)) :
    SortedMap PackageInstanceId (LockedPackage lib) :=
  SortedMap.ofList (packages.map fun package => (package.id, package))

def LockedPackage.targets (package : LockedPackage lib) : List PackageInstanceId :=
  package.dependencies.entries.map Prod.snd

structure LockDfsFrame where
  package : PackageInstanceId
  dependencies : List (DependencyName × PackageInstanceId)

def LockDfsFrame.new (package : LockedPackage lib) : LockDfsFrame :=
  ⟨package.id, package.dependencies.entries⟩

/-- The search: the stack stands top first. The error is set where the source returns it. -/
structure CycleSearch (lib : UrlLibrary Host) where
  visited : List PackageInstanceId
  visitingPositions : SortedMap PackageInstanceId ℕ
  stack : List LockDfsFrame
  error : Option (LockValidationError lib)

namespace CycleSearch

/-- The packages on the stack, the bottom first. -/
def path (s : CycleSearch lib) : List PackageInstanceId :=
  (s.stack.map LockDfsFrame.package).reverse

/-- One iteration of the search from a package. -/
def step (packages : SortedMap PackageInstanceId (LockedPackage lib)) (s : CycleSearch lib) :
    Option (CycleSearch lib) :=
  match s.error, s.stack with
  | some _, _ => none
  | none, [] => none
  | none, frame :: below =>
    match frame.dependencies with
    | [] => some { s with
        visited := s.visited ++ [frame.package]
        visitingPositions := s.visitingPositions.set frame.package none
        stack := below }
    | (dependency, target) :: rest =>
      let advanced := { s with stack := { frame with dependencies := rest } :: below }
      if target ∈ s.visited then some advanced
      else match s.visitingPositions.get? target with
        | some cycleStart => some { advanced with
            error := some (.dependencyCycle ⟨target, s.path.drop (cycleStart + 1)⟩) }
        | none => match packages.get? target with
          | some package => some { advanced with
              visitingPositions := s.visitingPositions.insert target s.stack.length
              stack := .new package :: advanced.stack }
          | none => some { advanced with
              error := some (.missingDependencyTarget frame.package dependency target) }

/-- Neither visited nor on the stack. -/
def isNew (s : CycleSearch lib) (entry : PackageInstanceId × LockedPackage lib) : Bool :=
  entry.1 ∉ s.visited && entry.1 ∉ s.path

def entryWork (entry : PackageInstanceId × LockedPackage lib) : ℕ :=
  entry.2.dependencies.entries.length + 2

def frameWork (frame : LockDfsFrame) : ℕ := frame.dependencies.length + 1

/-- The steps a search can still take: for the new packages, and for those on the stack. -/
def work (packages : SortedMap PackageInstanceId (LockedPackage lib)) (s : CycleSearch lib) : ℕ :=
  openWeight entryWork packages.entries s.isNew + (s.stack.map frameWork).sum

/-- The search with the frame of a package on the stack. -/
def enter (s : CycleSearch lib) (package : LockedPackage lib) : CycleSearch lib :=
  { s with
    visitingPositions := s.visitingPositions.insert package.id 0
    stack := .new package :: s.stack }

/-- Search from a package, unless the search has failed or visited it. -/
def visitPackage (packages : SortedMap PackageInstanceId (LockedPackage lib)) (s : CycleSearch lib)
    (package : LockedPackage lib) : CycleSearch lib :=
  if s.error.isSome ∨ package.id ∈ s.visited then s
  else Loop.runWhile (step packages) (work packages (s.enter package)) (s.enter package)

/-- The search over the packages of a list. -/
def search (packages visited : List (LockedPackage lib)) : CycleSearch lib :=
  visited.foldl (visitPackage (packageMap packages)) ⟨[], .empty, [], none⟩

end CycleSearch

def rejectDependencyCycles (packages : List (LockedPackage lib)) :
    Except (LockValidationError lib) Unit :=
  match (CycleSearch.search packages packages).error with
  | some error => .error error
  | none => .ok ()

/-! ## The other checks -/

/-- The targets that the walk over the reachable packages pushes, the last one first. -/
def pushedTargets (packages : SortedMap PackageInstanceId (LockedPackage lib))
    (id : PackageInstanceId) : List PackageInstanceId :=
  match packages.get? id with
  | some package => package.targets.reverse
  | none => []

def reachablePackages (packages : List (LockedPackage lib)) (root : PackageInstanceId) :
    List PackageInstanceId :=
  (Worklist.run (pushedTargets (packageMap packages)) (root :: packages.flatMap LockedPackage.targets)
    [root]).visited

def rejectUnreachablePackages (packages : List (LockedPackage lib)) (root : PackageInstanceId) :
    Except (LockValidationError lib) Unit :=
  let reachable := reachablePackages packages root
  match ((packages.map LockedPackage.id).filter (· ∉ reachable)).min? with
  | some package => .error (.unreachablePackage package)
  | none => .ok ()

/-- Pin the digest of a package's Git source, unless another package pinned another digest. -/
def pinGitSource [DecidableEq Host]
    (sources : List (CanonicalGitSource lib × Sha256Digest × PackageInstanceId))
    (package : LockedPackage lib) : Except (LockValidationError lib)
      (List (CanonicalGitSource lib × Sha256Digest × PackageInstanceId)) :=
  match package.source with
  | .root => .ok sources
  | .git url _ commit treeHashes =>
    match sources.lookup ⟨url, commit⟩ with
    | some (expected, first) =>
      if expected ≠ treeHashes.sha256 then
        .error (.conflictingGitSourceDigest
          ⟨first, package.id, url, commit, expected, treeHashes.sha256⟩)
      else .ok sources
    | none => .ok ((⟨url, commit⟩, treeHashes.sha256, package.id) :: sources)

def rejectSelfAlias (package : LockedPackage lib) : Except (LockValidationError lib) Unit :=
  reject (package.dependencies.get? package.name.toDependency).isSome
    (.selfDependencyAlias package.id package.name.toDependency)

def checkSource (root : PackageInstanceId) (package : LockedPackage lib) :
    Except (LockValidationError lib) Unit :=
  match decide (package.id = root), package.source with
  | true, .root => .ok ()
  | false, .git .. => .ok ()
  | true, .git .. => .error (.rootPackageMustUseRootSource package.id)
  | false, .root => .error (.rootSourceOnDependency package.id)

def checkTargets (ids : List PackageInstanceId) (package : LockedPackage lib) :
    Except (LockValidationError lib) Unit :=
  forM package.dependencies.entries fun (dependency, target) =>
    reject (target ∉ ids) (.missingDependencyTarget package.id dependency target)

namespace Lockfile

variable [DecidableEq Host]

/-- The checks of `validated`, in order. -/
def check (lockfile : Lockfile lib) (activeGraphcalVersion activeStdlibVersion : Text) :
    Except (LockValidationError lib) Unit := do
  reject (lockfile.lockVersion ≠ ProvenGraphcal.lockVersion)
    (.unsupportedLockVersion lockfile.lockVersion)
  reject (lockfile.graphcalVersion ≠ activeGraphcalVersion)
    (.graphcalVersionMismatch lockfile.graphcalVersion activeGraphcalVersion)
  reject (lockfile.stdlibVersion ≠ activeStdlibVersion)
    (.stdlibVersionMismatch lockfile.stdlibVersion activeStdlibVersion)
  let entries ← lockfile.packages.foldlM (insertDistinct LockedPackage.id
    (fun _ package => .duplicatePackageId package.id) rejectSelfAlias) []
  let ids := entries.map LockedPackage.id
  reject (lockfile.root ∉ ids) (.missingRoot lockfile.root)
  forM lockfile.packages (checkSource lockfile.root)
  forM lockfile.packages (checkTargets ids)
  rejectDependencyCycles lockfile.packages
  rejectUnreachablePackages lockfile.packages lockfile.root
  let _ ← lockfile.packages.foldlM pinGitSource []
  let _ ← lockfile.packages.foldlM (insertDistinct LockedPackage.canonicalInstance
    (fun first package => .duplicateCanonicalPackage first.id package.id) fun _ => .ok ()) []
  let _ ← lockfile.plugins.foldlM (insertDistinct LockedPlugin.path
    (fun _ plugin => .duplicatePluginPath plugin.path.toText) fun _ => .ok ()) []
  return ()

end Lockfile

/-- A lockfile that passed every check against the active versions. -/
structure ValidatedLockfile (lib : UrlLibrary Host) [DecidableEq Host]
    (activeGraphcalVersion activeStdlibVersion : Text) where
  lockfile : Lockfile lib
  checked : lockfile.check activeGraphcalVersion activeStdlibVersion = .ok ()

def Lockfile.validated [DecidableEq Host] (lockfile : Lockfile lib)
    (activeGraphcalVersion activeStdlibVersion : Text) :
    Except (LockValidationError lib)
      (ValidatedLockfile lib activeGraphcalVersion activeStdlibVersion) :=
  match h : lockfile.check activeGraphcalVersion activeStdlibVersion with
  | .ok () => .ok ⟨lockfile, h⟩
  | .error error => .error error

end ProvenGraphcal
