import ProvenGraphcal.Library.Toml
import ProvenGraphcal.Package.Validation

/-!
# The text of a lockfile

The writer makes its TOML text by hand. The reader goes through a TOML parser, which is a
parameter, and checks the fields of the table it gives.
-/

namespace ProvenGraphcal

open Checked

variable {Host : Type} {lib : UrlLibrary Host}

/-- The digits of `{:04X}`, for a number of at most four digits. -/
def escapeHex (value : ℕ) : Text := Toml.fourDigits value

def escapedText (c : Char) : Text :=
  if c = '\\' then "\\\\".toList
  else if c = '"' then "\\\"".toList
  else if c = '\n' then "\\n".toList
  else if c = '\r' then "\\r".toList
  else if c = '\t' then "\\t".toList
  else if c = Char.ofNat 0x08 then "\\b".toList
  else if c = Char.ofNat 0x0c then "\\f".toList
  else if Text.isControl c then "\\u".toList ++ escapeHex c.toNat
  else [c]

def pushEscapedString (out value : Text) : Text := out ++ value.flatMap escapedText

def pushKvString (out : Text) (key : String) (value : Text) : Text :=
  pushEscapedString (out ++ key.toList ++ " = \"".toList) value ++ "\"\n".toList

def pushKvU64 (out : Text) (key : String) (value : UInt64) : Text :=
  out ++ key.toList ++ " = ".toList ++ (toString value.toNat).toList ++ "\n".toList

def pushKvInlineTable (out : Text) (key : String) (pairs : List (String × Text)) : Text :=
  let out := out ++ key.toList ++ " = \x7b ".toList
  let out := pairs.zipIdx.foldl (fun out pair =>
    let out := if 0 < pair.2 then out ++ ", ".toList else out
    pushEscapedString (out ++ pair.1.1.toList ++ " = \"".toList) pair.1.2 ++ "\"".toList) out
  out ++ " \x7d\n".toList

namespace PackageSource

/-- The entries of `[package.source]`. -/
def push (out : Text) : PackageSource lib → Text
  | root =>
    let out := pushKvString out "type" "path".toList
    pushKvString out "path" ".".toList
  | git url requestedRev commit treeHashes =>
    let out := pushKvString out "type" "git".toList
    let out := pushKvString out "url" url.toText
    let out := pushKvString out "requested_rev" requestedRev.value
    let out := pushKvString out "commit" commit.value
    pushKvInlineTable out "tree_hashes" [("sha256", treeHashes.sha256.toText)]

end PackageSource

def LockedPackage.push (out : Text) (package : LockedPackage lib) : Text :=
  let out := out ++ "\n[[package]]\n".toList
  let out := pushKvString out "id" package.id.value
  let out := pushKvString out "name" package.name.value
  let out := pushKvString out "source_dir" package.sourceDir.toText
  let out := out ++ "\n[package.source]\n".toList
  let out := package.source.push out
  if package.dependencies.isEmpty then out
  else package.dependencies.entries.foldl (fun out dependency =>
    pushKvString out (String.ofList dependency.1.value) dependency.2.value)
    (out ++ "\n[package.dependencies]\n".toList)

def LockedPlugin.push (out : Text) (plugin : LockedPlugin) : Text :=
  let out := out ++ "\n[[plugin]]\n".toList
  let out := pushKvString out "path" plugin.path.toText
  pushKvString out "sha256" plugin.sha256.toText

namespace Lockfile

def sortedPackages (lockfile : Lockfile lib) : List (LockedPackage lib) :=
  lockfile.packages.mergeSort fun a b => a.id ≤ b.id

def sortedPlugins (lockfile : Lockfile lib) : List LockedPlugin :=
  lockfile.plugins.mergeSort fun a b => a.path ≤ b.path

def toDeterministicToml (lockfile : Lockfile lib) : Text :=
  let out := pushKvU64 [] "lock_version" lockfile.lockVersion
  let out := pushKvString out "created_by" lockfile.createdBy
  let out := pushKvString out "graphcal_version" lockfile.graphcalVersion
  let out := pushKvString out "stdlib_version" lockfile.stdlibVersion
  let out := pushKvString out "root" lockfile.root.value
  let out := lockfile.sortedPackages.foldl LockedPackage.push out
  lockfile.sortedPlugins.foldl LockedPlugin.push out

end Lockfile

/-- `none` is the largest count, which no list exceeds. -/
structure LockfileParseLimits where
  maxPackages : Option ℕ

def LockfileParseLimits.unbounded : LockfileParseLimits := ⟨none⟩

inductive LockedPluginError
  | invalidPath (error : PluginArtifactPathError)
  | invalidSha256 (error : Sha256DigestError)

inductive LockfileParseError
  | tomlParseError (message : Text)
  | missingField (field : String)
  | invalidType (field expected : String)
  | unknownField (table : String) (field : Text)
  | packageLimitExceeded (limit actual : ℕ)
  | packageName (error : PackageNameError)
  | dependencyName (error : DependencyNameError)
  | packageInstanceId (error : PackageInstanceIdError)
  | gitRev (error : GitRevError)
  | gitUrl (error : GitUrl.Error)
  | invalidSourceDir (dir : Text) (reason : PackageSourceDirectoryErrorReason)
  | unsupportedPathSource (path : Text)
  | unsupportedSourceType (sourceType : Text)
  | sha256Digest (error : Sha256DigestError)
  | plugin (error : LockedPluginError)

def LockedPlugin.new (path sha256 : Text) : Except LockedPluginError LockedPlugin := do
  let path ← (PluginArtifactPath.new path).mapError .invalidPath
  let sha256 ← (Sha256Digest.new sha256).mapError .invalidSha256
  return ⟨path, sha256⟩

abbrev TableEntries := List (Text × Toml.Value)

namespace TableEntries

/-- `Table::get`. -/
def get (table : TableEntries) (key : String) : Option Toml.Value :=
  SortedMap.lookup key.toList table

end TableEntries

def requiredString (item : Option Toml.Value) (field : String) : Except LockfileParseError Text :=
  match item with
  | none => .error (.missingField field)
  | some value => value.asString.elim (.error (.invalidType field "a string")) .ok

def requiredU64 (item : Option Toml.Value) (field : String) : Except LockfileParseError UInt64 :=
  match item with
  | none => .error (.missingField field)
  | some value =>
    match value.asInteger with
    | some integer =>
      if 0 ≤ integer ∧ integer < 2 ^ 64 then .ok (UInt64.ofNat integer.toNat)
      else .error (.invalidType field "an integer")
    | none => .error (.invalidType field "an integer")

def rejectUnknownLockFields (table : TableEntries) (tableName : String) (allowed : List String)
    (strictSchema : Bool) : Except LockfileParseError Unit :=
  if !strictSchema then .ok ()
  else match (table.map Prod.fst).find? fun field => field ∉ allowed.map String.toList with
    | none => .ok ()
    | some field => .error (.unknownField tableName field)

def parseLockedPlugin (strictSchema : Bool) (entry : Toml.Value × ℕ) :
    Except LockfileParseError LockedPlugin :=
  let name := "plugin[" ++ toString entry.2 ++ "]"
  match entry.1.asTable with
  | none => .error (.invalidType name "a table")
  | some table => do
    rejectUnknownLockFields table name ["path", "sha256"] strictSchema
    let path ← requiredString (TableEntries.get table "path") "plugin.path"
    let sha256 ← requiredString (TableEntries.get table "sha256") "plugin.sha256"
    (LockedPlugin.new path sha256).mapError .plugin

def parseLockedPlugins (item : Toml.Value) (strictSchema : Bool) :
    Except LockfileParseError (List LockedPlugin) :=
  match item.asArray with
  | none => .error (.invalidType "plugin" "an array of tables")
  | some array => array.zipIdx.mapM (parseLockedPlugin strictSchema)

def parseLockSourceDir (value : Text) : Except LockfileParseError PackageSourceDirectory :=
  (PackageSourceDirectory.new value).mapError (.invalidSourceDir value)

/-- The table of a field, which is reported as missing where it is no table. -/
def requiredTable (item : Option Toml.Value) (field : String) :
    Except LockfileParseError TableEntries :=
  (item.bind Toml.Value.asTable).elim (.error (.missingField field)) .ok

def parsePackageSource (lib : UrlLibrary Host) (table : TableEntries) (strictSchema : Bool) :
    Except LockfileParseError (PackageSource lib) := do
  let sourceType ← requiredString (table.get "type") "package.source.type"
  if sourceType = "path".toList then do
    rejectUnknownLockFields table "package.source" ["type", "path"] strictSchema
    let path ← requiredString (table.get "path") "package.source.path"
    reject (path ≠ ".".toList) (.unsupportedPathSource path)
    return .root
  else if sourceType = "git".toList then do
    rejectUnknownLockFields table "package.source"
      ["type", "url", "requested_rev", "commit", "tree_hashes"] strictSchema
    let url ← requiredString (table.get "url") "package.source.url"
    let url ← (GitUrl.new lib url).mapError .gitUrl
    let requestedRev ← requiredString (table.get "requested_rev") "package.source.requested_rev"
    let requestedRev ← (GitCommitHash.new requestedRev).mapError .gitRev
    let commit ← requiredString (table.get "commit") "package.source.commit"
    let commit ← (GitCommitHash.new commit).mapError .gitRev
    let hashes ← requiredTable (table.get "tree_hashes") "package.source.tree_hashes"
    rejectUnknownLockFields hashes "package.source.tree_hashes" ["sha256"] strictSchema
    let sha256 ← requiredString (hashes.get "sha256") "package.source.tree_hashes.sha256"
    let sha256 ← (Sha256Digest.new sha256).mapError .sha256Digest
    return .git url requestedRev commit ⟨sha256⟩
  else .error (.unsupportedSourceType sourceType)

def parsePackageDependency (entry : Text × Toml.Value) :
    Except LockfileParseError (DependencyName × PackageInstanceId) := do
  let name ← (DependencyName.new entry.1).mapError .dependencyName
  let target ← entry.2.asString.elim
    (.error (.invalidType ("package.dependencies." ++ String.ofList entry.1) "a string")) .ok
  let target ← (PackageInstanceId.new target).mapError .packageInstanceId
  return (name, target)

def parsePackageDependencies (item : Toml.Value) :
    Except LockfileParseError (SortedMap DependencyName PackageInstanceId) :=
  match item.asTable with
  | none => .error (.invalidType "package.dependencies" "a table")
  | some table => SortedMap.ofList <$> table.mapM parsePackageDependency

def parseLockedPackage (lib : UrlLibrary Host) (strictSchema : Bool) (entry : Toml.Value × ℕ) :
    Except LockfileParseError (LockedPackage lib) :=
  let name := "package[" ++ toString entry.2 ++ "]"
  match entry.1.asTable with
  | none => .error (.invalidType name "a table")
  | some table => do
    rejectUnknownLockFields table name ["id", "name", "source_dir", "source", "dependencies"]
      strictSchema
    let id ← requiredString (TableEntries.get table "id") "package.id"
    let id ← (PackageInstanceId.new id).mapError .packageInstanceId
    let name ← requiredString (TableEntries.get table "name") "package.name"
    let name ← (PackageName.new name).mapError .packageName
    let sourceDir ← requiredString (TableEntries.get table "source_dir") "package.source_dir"
    let sourceDir ← parseLockSourceDir sourceDir
    let source ← requiredTable (TableEntries.get table "source") "package.source"
    let source ← parsePackageSource lib source strictSchema
    let dependencies ←
      match TableEntries.get table "dependencies" with
      | some dependencies => parsePackageDependencies dependencies
      | none => .ok .empty
    return ⟨id, name, sourceDir, source, dependencies⟩

/-- The field of the packages, which is reported as missing where it is no array. -/
def packageArray (root : TableEntries) : Except LockfileParseError (List Toml.Value) :=
  ((root.get "package").bind Toml.Value.asArray).elim (.error (.missingField "package")) .ok

def LockfileParseLimits.check (limits : LockfileParseLimits) (actual : ℕ) :
    Except LockfileParseError Unit :=
  match limits.maxPackages with
  | none => .ok ()
  | some limit => reject (limit < actual) (.packageLimitExceeded limit actual)

def lockFields : List String :=
  ["lock_version", "created_by", "graphcal_version", "stdlib_version", "root", "package", "plugin"]

def parseLockTable (lib : UrlLibrary Host) (root : TableEntries) (limits : LockfileParseLimits) :
    Except LockfileParseError (Lockfile lib) := do
  let version ← requiredU64 (root.get "lock_version") "lock_version"
  let strictSchema := version == ProvenGraphcal.lockVersion
  rejectUnknownLockFields root "root" lockFields strictSchema
  let createdBy ← requiredString (root.get "created_by") "created_by"
  let graphcalVersion ← requiredString (root.get "graphcal_version") "graphcal_version"
  let stdlibVersion ← requiredString (root.get "stdlib_version") "stdlib_version"
  let rootId ← requiredString (root.get "root") "root"
  let rootId ← (PackageInstanceId.new rootId).mapError .packageInstanceId
  let array ← packageArray root
  limits.check array.length
  let packages ← array.zipIdx.mapM (parseLockedPackage lib strictSchema)
  let plugins ←
    match root.get "plugin" with
    | some plugin => parseLockedPlugins plugin strictSchema
    | none => .ok []
  return ⟨version, createdBy, graphcalVersion, stdlibVersion, rootId, packages, plugins⟩

/-- A TOML parser: the entries of the table of a text, or its message. -/
abbrev TomlParser := Text → Except Text TableEntries

variable (parseToml : TomlParser) (lib : UrlLibrary Host)

def parseLockfileStrWithLimits (content : Text) (limits : LockfileParseLimits) :
    Except LockfileParseError (Lockfile lib) := do
  let root ← (parseToml content).mapError .tomlParseError
  parseLockTable lib root limits

def parseLockfileStr (content : Text) : Except LockfileParseError (Lockfile lib) :=
  parseLockfileStrWithLimits parseToml lib content .unbounded

end ProvenGraphcal
