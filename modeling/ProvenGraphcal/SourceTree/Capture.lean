import ProvenGraphcal.Library.InsertionMap
import ProvenGraphcal.Library.SortedMap
import ProvenGraphcal.Library.Utf8Text

/-!
# Capturing a source tree

`graphcal.toml` and the source directory of a package are walked from a stack, without following
links, and the regular files found are read under one byte budget. The snapshot is hashed as one
byte stream and mounted as an in-memory filesystem.
-/

namespace ProvenGraphcal.SourceTree

abbrev Bytes := List UInt8

def separator : UInt8 := 47

/-- A normal component: not empty, without a separator, neither `.` nor `..`. -/
structure Name where
  bytes : Bytes
  nonempty : bytes ≠ []
  no_separator : separator ∉ bytes
  not_current : bytes ≠ [46]
  not_parent : bytes ≠ [46, 46]
deriving DecidableEq

/-- A relative path of normal components, as source directories and listings give them. -/
abbrev RelPath := List Name

/-- A normalized absolute path: the components below the root of the filesystem. -/
abbrev AbsPath := List Name

/-- `OsStr::to_str` succeeds. -/
def isUtf8 (bytes : Bytes) : Bool := (ByteArray.mk bytes.toArray).validateUTF8

/-- The bytes of a path, `/` between its components. -/
def joined (path : RelPath) : Bytes := [separator].intercalate (path.map Name.bytes)

/-- The UTF-8 text of a relative path with `/` separators. -/
structure PortableRelativePath where
  bytes : Bytes
  portable : ∃ path : RelPath, (∀ name ∈ path, isUtf8 name.bytes) ∧ bytes = joined path
deriving DecidableEq

def codes (bytes : Bytes) : List ℕ := bytes.map UInt8.toNat

theorem codes_injective : Function.Injective codes :=
  List.map_injective_iff.mpr fun _ _ h => UInt8.toNat_inj.mp h

instance : LinearOrder Name :=
  LinearOrder.lift' (fun name => codes name.bytes) fun a b h => by
    cases a
    cases b
    congr
    exact codes_injective h

instance : LinearOrder PortableRelativePath :=
  LinearOrder.lift' (fun path => codes path.bytes) fun a b h => by
    cases a
    cases b
    congr
    exact codes_injective h

/-- `graphcal.toml`. -/
def manifestName : Name where
  bytes := Utf8Text.bytes "graphcal.toml".toList
  nonempty := by decide
  no_separator := by decide
  not_current := by decide
  not_parent := by decide

def gitName : Name where
  bytes := Utf8Text.bytes ".git".toList
  nonempty := by decide
  no_separator := by decide
  not_current := by decide
  not_parent := by decide

/-- The kinds of `io::Error`. -/
inductive IoErrorKind
  | notFound
  | notADirectory
  | invalidInput
  | permissionDenied
  | other
deriving DecidableEq

inductive FileSystemReadError
  | io (kind : IoErrorKind)
  | byteLimitExceeded (limit : ℕ)
  | entryLimitExceeded (limit : ℕ)
deriving DecidableEq

inductive FileSystemEntryKind
  | file
  | directory
  | symlink
  | other
deriving DecidableEq

/-- The read operations of a filesystem; the cancellation token is never triggered. -/
@[ext] structure FileSystemReader where
  readBytesBounded : AbsPath → ℕ → Except FileSystemReadError Bytes
  canonicalize : AbsPath → Except IoErrorKind AbsPath
  entryKind : AbsPath → Except IoErrorKind FileSystemEntryKind
  readDirectoryBounded : AbsPath → ℕ → Except FileSystemReadError (List Name)

/-- Per-file, aggregate-byte and traversal-entry limits. -/
structure SourceTreeHashLimits where
  fileBytes : ℕ
  totalBytes : ℕ
  entries : ℕ
  fileBytes_lt : fileBytes < 2 ^ 64
  totalBytes_lt : totalBytes < 2 ^ 64
  entries_lt : entries < 2 ^ 64

inductive SourceTreeResource
  | entries
  | bytes
deriving DecidableEq

inductive SourceTreeHashError
  | canonicalize (path : AbsPath) (source : IoErrorKind)
  | inspect (path : AbsPath) (source : IoErrorKind)
  | readDirectory (path : AbsPath) (source : FileSystemReadError)
  | readFile (path : AbsPath) (source : FileSystemReadError)
  | symlink (path : AbsPath)
  | unsupportedEntry (path : AbsPath)
  | outsideRoot (path root : AbsPath)
  | nonUtf8Path (path : RelPath)
  | resourceLimit (resource : SourceTreeResource) (limit : ℕ)
deriving DecidableEq

/-! ## The walk -/

def portableRelativePath (path : RelPath) :
    Except SourceTreeHashError PortableRelativePath :=
  if h : ∀ name ∈ path, isUtf8 name.bytes then .ok ⟨joined path, path, h, rfl⟩
  else .error (.nonUtf8Path path)

def containsGitComponent (path : RelPath) : Bool := path.any fun name => name == gitName

def canonicalInside (fs : FileSystemReader) (path canonicalRoot : AbsPath) :
    Except SourceTreeHashError AbsPath := do
  let canonical ← (fs.canonicalize path).mapError (.canonicalize path)
  if canonicalRoot.isPrefixOf canonical then .ok canonical
  else .error (.outsideRoot path canonicalRoot)

def mapDirectoryError (path : AbsPath) : FileSystemReadError → SourceTreeHashError
  | .entryLimitExceeded limit => .resourceLimit .entries limit
  | source => .readDirectory path source

def mapFileError (path : AbsPath) (error : FileSystemReadError) : SourceTreeHashError :=
  .readFile path error

/-- What the loop does with an entry: record a file, or push the children of a directory. -/
inductive Inspected
  | file (relative : PortableRelativePath) (canonical : AbsPath)
  | directory (children : List RelPath)

def sortNames (names : List Name) : List Name := names.insertionSort (· ≤ ·)

def inspectEntry (fs : FileSystemReader) (canonicalRoot : AbsPath) (remaining : ℕ)
    (relative : RelPath) : Except SourceTreeHashError Inspected :=
  let path := canonicalRoot ++ relative
  match fs.entryKind path with
  | .error source => .error (.inspect path source)
  | .ok .file => do
    let canonical ← canonicalInside fs path canonicalRoot
    return .file (← portableRelativePath relative) canonical
  | .ok .directory => do
    let canonical ← canonicalInside fs path canonicalRoot
    let children ←
      (fs.readDirectoryBounded canonical remaining).mapError (mapDirectoryError canonical)
    return .directory ((sortNames children).map fun child => relative ++ [child])
  | .ok .symlink => .error (.symlink path)
  | .ok .other => .error (.unsupportedEntry path)

abbrev FoundFiles := SortedMap PortableRelativePath AbsPath

/-- The loop over the pending stack, whose top comes first: the entries counted and the files
found. -/
def walk (fs : FileSystemReader) (canonicalRoot : AbsPath) (limit : ℕ) :
    List RelPath → ℕ → FoundFiles → Except SourceTreeHashError (ℕ × FoundFiles)
  | [], entries, files => .ok (entries, files)
  | relative :: pending, entries, files =>
    if containsGitComponent relative then walk fs canonicalRoot limit pending entries files
    else if _h : entries + 1 ≤ limit then
      match inspectEntry fs canonicalRoot (limit - (entries + 1)) relative with
      | .error error => .error error
      | .ok (.file key canonical) =>
        walk fs canonicalRoot limit pending (entries + 1) (files.insert key canonical)
      | .ok (.directory children) =>
        walk fs canonicalRoot limit (children ++ pending) (entries + 1) files
    else .error (.resourceLimit .entries limit)
termination_by pending entries => (limit - entries, pending.length)

abbrev CapturedFiles := SortedMap PortableRelativePath Bytes

/-- The loop that reads the files found, in key order. -/
def readFiles (fs : FileSystemReader) (limits : SourceTreeHashLimits) :
    List (PortableRelativePath × AbsPath) → ℕ → CapturedFiles →
      Except SourceTreeHashError (ℕ × CapturedFiles)
  | [], totalBytes, captured => .ok (totalBytes, captured)
  | (relative, path) :: rest, totalBytes, captured =>
    let remaining := limits.totalBytes - totalBytes
    let limit := min limits.fileBytes remaining
    match fs.readBytesBounded path limit with
    | .error error => .error (mapFileError path error)
    | .ok bytes =>
      if totalBytes + bytes.length > limits.totalBytes then
        .error (.resourceLimit .bytes limits.totalBytes)
      else readFiles fs limits rest (totalBytes + bytes.length) (captured.insert relative bytes)

structure SourceTreeSnapshot where
  files : CapturedFiles
  bytes : ℕ
  entries : ℕ

def captureSourceTree (fs : FileSystemReader) (root : AbsPath) (sourceDir : RelPath)
    (limits : SourceTreeHashLimits) : Except SourceTreeHashError SourceTreeSnapshot := do
  let canonicalRoot ← (fs.canonicalize root).mapError (.canonicalize root)
  let (entries, files) ←
    walk fs canonicalRoot limits.entries [sourceDir, [manifestName]] 0 .empty
  let (totalBytes, captured) ← readFiles fs limits files.entries 0 .empty
  return ⟨captured, totalBytes, entries⟩

/-- The ASCII digits of a length. -/
def decimal (n : ℕ) : Bytes := (Nat.toDigits 10 n).map fun digit => UInt8.ofNat digit.toNat

/-- What is fed to the hasher for one file. -/
def frame (file : PortableRelativePath × Bytes) : Bytes :=
  file.1.bytes ++ [0] ++ decimal file.2.length ++ [0] ++ file.2 ++ [0]

/-- All that is fed to the hasher. -/
def SourceTreeSnapshot.stream (snapshot : SourceTreeSnapshot) : Bytes :=
  snapshot.files.entries.flatMap frame

def hexString (bytes : Bytes) : String :=
  String.ofList (bytes.flatMap fun byte =>
    [Nat.digitChar (byte.toNat / 16), Nat.digitChar (byte.toNat % 16)])

structure SourceTreeHash where
  sha256 : String
  files : ℕ
  bytes : ℕ
  entries : ℕ
deriving DecidableEq

/-- The digest of the captured bytes; `sha256` is the hash function. -/
def SourceTreeSnapshot.hash (sha256 : Bytes → Bytes) (snapshot : SourceTreeSnapshot) :
    SourceTreeHash where
  sha256 := hexString (sha256 snapshot.stream)
  files := snapshot.files.entries.length
  bytes := snapshot.bytes
  entries := snapshot.entries

inductive InMemoryFileSystemError
  | fileAncestor (path ancestor : AbsPath)
  | directoryAlreadyExists (path : AbsPath)
deriving DecidableEq

/-- Some key lies strictly below the path. -/
def isDirOf (keys : List AbsPath) (path : AbsPath) : Bool :=
  keys.any fun key => key ≠ path && path.isPrefixOf key

/-- Files by path; no file lies below another. The contents are kept as their bytes. -/
structure InMemoryFileSystem where
  files : InsertionMap AbsPath Bytes
  topology : ∀ path ∈ files.keys, isDirOf files.keys path = false

namespace InMemoryFileSystem

def new : InMemoryFileSystem := ⟨.empty, nofun⟩

def isDir (fs : InMemoryFileSystem) (path : AbsPath) : Bool := isDirOf fs.files.keys path

theorem topology_insert (fs : InMemoryFileSystem) {path : AbsPath} (content : Bytes)
    (hdir : fs.isDir path = false)
    (hancestor : fs.files.keys.find? (fun key => key ≠ path && key.isPrefixOf path) = none) :
    ∀ p ∈ (fs.files.insert path content).keys,
      isDirOf (fs.files.insert path content).keys p = false := by
  have hmem : ∀ p, p ∈ (fs.files.insert path content).keys ↔ p = path ∨ p ∈ fs.files.keys := by
    intro p
    rw [InsertionMap.mem_keys, InsertionMap.mem_keys]
    simp only [InsertionMap.get?_insert]
    split_ifs with h <;> simp [h]
  intro p hp
  rw [isDirOf, List.any_eq_false]
  intro key hkey hbelow
  simp only [ne_eq, Bool.and_eq_true, decide_eq_true_eq] at hbelow
  obtain ⟨hne, hpre⟩ := hbelow
  rw [List.find?_eq_none] at hancestor
  rw [isDir, isDirOf, List.any_eq_false] at hdir
  rcases (hmem p).mp hp with rfl | hold <;> rcases (hmem key).mp hkey with rfl | hbefore
  · exact hne rfl
  · exact hdir key hbefore (by simp [hne, hpre])
  · exact hancestor p hold (by simp [Ne.symm hne, hpre])
  · have h := fs.topology p hold
    rw [isDirOf, List.any_eq_false] at h
    exact h key hbefore (by simp [hne, hpre])

def insert (fs : InMemoryFileSystem) (path : AbsPath) (content : Bytes) :
    Except InMemoryFileSystemError InMemoryFileSystem :=
  if hdir : fs.isDir path then .error (.directoryAlreadyExists path)
  else
    match h : fs.files.keys.find? (fun key => key ≠ path && key.isPrefixOf path) with
    | some ancestor => .error (.fileAncestor path ancestor)
    | none =>
      .ok ⟨fs.files.insert path content,
        fs.topology_insert content (Bool.not_eq_true _ ▸ hdir) h⟩

/-- The components of `key` below `path`. -/
def stripPrefix (path key : AbsPath) : Option (List Name) :=
  if path.isPrefixOf key then some (key.drop path.length) else none

/-- One file of `child_names_bounded`; the names seen are kept sorted. -/
def addChildName (path : AbsPath) (limit : ℕ) (names : SortedMap Name Unit) (key : AbsPath) :
    Except FileSystemReadError (SortedMap Name Unit) :=
  match stripPrefix path key with
  | some (name :: _) =>
    let names := names.insert name ()
    if names.entries.length > limit then .error (.entryLimitExceeded limit) else .ok names
  | _ => .ok names

def childNamesBounded (fs : InMemoryFileSystem) (path : AbsPath) (limit : ℕ) :
    Except FileSystemReadError (List Name) :=
  (fs.files.keys.foldlM (addChildName path limit) .empty).map SortedMap.keys

def existingPath (fs : InMemoryFileSystem) (path : AbsPath) : Except IoErrorKind AbsPath :=
  if fs.files.contains path || fs.isDir path then .ok path else .error .notFound

def reader (fs : InMemoryFileSystem) : FileSystemReader where
  readBytesBounded path limit :=
    match fs.files.get? path with
    | none => .error (.io .notFound)
    | some bytes => if bytes.length > limit then .error (.byteLimitExceeded limit) else .ok bytes
  canonicalize := fs.existingPath
  entryKind path :=
    if fs.files.contains path then .ok .file
    else if fs.isDir path then .ok .directory
    else .error .notFound
  readDirectoryBounded path limit := do
    let path ← (fs.existingPath path).mapError .io
    if !fs.isDir path then .error (.io .notADirectory)
    else fs.childNamesBounded path limit

end InMemoryFileSystem

/-- A piece between two separators; empty and `.` pieces are skipped, and no portable path has a
`..` piece. -/
def component (piece : Bytes) : Option Name :=
  if h : piece ≠ [] ∧ separator ∉ piece ∧ piece ≠ [46] ∧ piece ≠ [46, 46] then
    some ⟨piece, h.1, h.2.1, h.2.2.1, h.2.2.2⟩
  else none

/-- `Path::components` of a portable path. -/
def PortableRelativePath.components (path : PortableRelativePath) : List Name :=
  (path.bytes.splitOn separator).filterMap component

/-- One file mounted below `root`; a path of normal components is a virtual path as it is. -/
def mountFile (root : AbsPath) (fs : InMemoryFileSystem) (file : PortableRelativePath × Bytes) :
    Except SourceTreeHashError InMemoryFileSystem :=
  let path := root ++ file.1.components
  (fs.insert path file.2).mapError fun _ => .unsupportedEntry path

def SourceTreeSnapshot.mount (snapshot : SourceTreeSnapshot) (root : AbsPath) :
    Except SourceTreeHashError InMemoryFileSystem :=
  snapshot.files.entries.foldlM (mountFile root) .new

end ProvenGraphcal.SourceTree
