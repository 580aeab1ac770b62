import ProvenGraphcal.Package.GitUrlText
import ProvenGraphcal.Package.LockfileDocument
import ProvenGraphcal.Package.ValidationOutcome

/-!
# Writing a lockfile and reading it back

The fields of the written table are read back as they were, except for Git URLs whose text is
refused.
-/

namespace ProvenGraphcal

open Checked
open SortedMap (ext_perm ofList_perm)

variable {Host : Type} {lib : UrlLibrary Host}

theorem PackageName.new_value (name : PackageName) : PackageName.new name.value = .ok name := by
  rw [PackageName.new, dif_pos name.valid]

theorem DependencyName.new_value (name : DependencyName) :
    DependencyName.new name.value = .ok name := by
  rw [DependencyName.new, dif_pos name.valid]

theorem PackageInstanceId.new_value (id : PackageInstanceId) :
    PackageInstanceId.new id.value = .ok id := by
  rw [PackageInstanceId.new, dif_pos id.valid]

theorem GitCommitHash.new_value (hash : GitCommitHash) : GitCommitHash.new hash.value = .ok hash := by
  rw [GitCommitHash.new, dif_pos hash.valid]
  exact congrArg Except.ok (GitCommitHash.ext_value hash.lower)

theorem hexNibble_getD : ∀ n < 16, hexNibble (hexDigits.getD n '0') =
    some (UInt8.ofNat n) := by decide

theorem nibbles (byte : UInt8) : (byte >>> 4).toNat < 16 ∧ (byte &&& 15).toNat < 16 ∧
    (byte >>> 4) <<< 4 ||| (byte &&& 15) = byte := by
  have hall : ∀ n : Fin 256, ((UInt8.ofFin n) >>> 4).toNat < 16 ∧
      ((UInt8.ofFin n) &&& 15).toNat < 16 ∧
      ((UInt8.ofFin n) >>> 4) <<< 4 ||| ((UInt8.ofFin n) &&& 15) = UInt8.ofFin n := by
    decide +kernel
  exact hall byte.toFin

theorem hexPairs_toText (bytes : List UInt8) : hexPairs (bytes.flatMap fun (byte : UInt8) =>
    [hexDigits.getD (byte >>> 4).toNat '0',
      hexDigits.getD (byte &&& 15).toNat '0']) = some bytes := by
  induction bytes with
  | nil => rfl
  | cons byte bytes ih =>
    obtain ⟨hhigh, hlow, happend⟩ := nibbles byte
    rw [List.flatMap_cons, List.cons_append, List.cons_append, List.nil_append, hexPairs,
      hexNibble_getD _ hhigh, hexNibble_getD _ hlow, ih, UInt8.ofNat_toNat, UInt8.ofNat_toNat]
    simp only [Option.bind_eq_bind, Option.bind_some, happend]
    rfl

theorem Sha256Digest.new_toText (digest : Sha256Digest) :
    Sha256Digest.new digest.toText = .ok digest := by
  have hpairs : hexPairs digest.toText = some digest.bytes := hexPairs_toText digest.bytes
  have hlength : digest.toText.length = 64 := by
    have h := hexPairs_length hpairs
    rw [digest.length_eq] at h
    exact h
  rw [Sha256Digest.new, dif_pos hlength]
  split
  case h_1 bytes h =>
    exact congrArg Except.ok (Sha256Digest.ext_bytes (Option.some.inj (h.symm.trans hpairs)))
  case h_2 h =>
    rw [hpairs] at h
    cases h

theorem parseSourceDirectory_eq_ok {value : Text} {components : List Text}
    (h : parseSourceDirectory value = .ok components) : components = value.splitOn '/' := by
  rw [parseSourceDirectory] at h
  split_ifs at h
  rw [mapM_eq_ok] at h
  have hsame : List.Forall₂ (fun a b => b = a) (value.splitOn '/') components := by
    refine h.imp fun a b hab => ?_
    rw [parseSourceDirectoryComponent] at hab
    split_ifs at hab
    exact (Except.ok.inj hab).symm
  exact List.forall₂_eq_eq_eq ▸ hsame.flip

theorem PackageSourceDirectory.new_toText (dir : PackageSourceDirectory) :
    PackageSourceDirectory.new dir.toText = .ok dir := by
  obtain ⟨value, hvalue⟩ := dir.parsed
  have htext : dir.toText = value := by
    rw [PackageSourceDirectory.toText, parseSourceDirectory_eq_ok hvalue, Text.joinWith_splitOn]
  rw [htext, PackageSourceDirectory.new]
  split
  case h_1 components h =>
    exact congrArg Except.ok
      (PackageSourceDirectory.ext_components (Except.ok.inj (h.symm.trans hvalue)))
  case h_2 reason h =>
    rw [hvalue] at h
    cases h

theorem PluginArtifactPath.new_toText (path : PluginArtifactPath) :
    PluginArtifactPath.new path.toText = .ok path := by
  obtain ⟨value, hvalue⟩ := path.parsed
  have hcomponents : path.components = value.splitOn '/' := by
    have h := hvalue
    simp only [parsePluginPath] at h
    split_ifs at h
    exact (Option.some.inj h).symm
  have htext : path.toText = value := by
    rw [PluginArtifactPath.toText, hcomponents, Text.joinWith_splitOn]
  rw [htext, PluginArtifactPath.new]
  split
  case h_1 components h =>
    exact congrArg Except.ok
      (PluginArtifactPath.components_injective (Option.some.inj (h.symm.trans hvalue)))
  case h_2 h =>
    rw [hvalue] at h
    cases h

theorem LockedPlugin.new_toText (plugin : LockedPlugin) :
    LockedPlugin.new plugin.path.toText plugin.sha256.toText = .ok plugin := by
  rw [LockedPlugin.new, PluginArtifactPath.new_toText, Sha256Digest.new_toText]
  rfl

section Tables

variable {entries : List (Text × Toml.Value)}

theorem get_ofList (key : String) (hnodup : (entries.map Prod.fst).Nodup) {value : Toml.Value}
    (h : (key.toList, value) ∈ entries) :
    TableEntries.get (SortedMap.ofList entries).entries key = some value :=
  SortedMap.get?_eq_some.mpr ((ofList_perm hnodup).mem_iff.mpr h)

theorem get_ofList_none (key : String) (h : key.toList ∉ entries.map Prod.fst) :
    TableEntries.get (SortedMap.ofList entries).entries key = none := get?_ofList_eq_none h

theorem rejectUnknownLockFields_ofList (hnodup : (entries.map Prod.fst).Nodup) {allowed : List String}
    (h : ∀ field ∈ entries.map Prod.fst, field ∈ allowed.map String.toList) (name : String)
    (strict : Bool) :
    rejectUnknownLockFields (SortedMap.ofList entries).entries name allowed strict = .ok () := by
  have hnone : ((SortedMap.ofList entries).entries.map Prod.fst).find?
      (fun field => field ∉ allowed.map String.toList) = none := by
    rw [List.find?_eq_none]
    intro field hfield
    have hmem := ((ofList_perm hnodup).map Prod.fst).mem_iff.mp hfield
    simpa using h field hmem
  rw [rejectUnknownLockFields, hnone]
  split_ifs <;> rfl

end Tables

/-! ## Reading the written values -/

/-- A source as it is read back: its URL is parsed again. -/
def PackageSource.reread : PackageSource lib → Except LockfileParseError (PackageSource lib)
  | root => .ok root
  | git url requestedRev commit treeHashes => do
    let url ← (GitUrl.new lib url.toText).mapError .gitUrl
    return .git url requestedRev commit treeHashes

theorem requiredString_string (text : Text) (field : String) :
    requiredString (some (.string text)) field = .ok text := rfl

theorem ok_bind {ε α β : Type} (a : α) (f : α → Except ε β) : (Except.ok a >>= f) = f a := rfl

theorem mapError_ok {ε ε' α : Type} (f : ε → ε') (a : α) :
    (Except.ok a : Except ε α).mapError f = .ok a := rfl

theorem requiredTable_tableValue (entries : List (Text × Toml.Value)) (field : String) :
    requiredTable (some (Toml.tableValue entries)) field =
      .ok (SortedMap.ofList entries).entries := rfl

theorem parsePackageSource_values (source : PackageSource lib) (strict : Bool) :
    parsePackageSource lib (SortedMap.ofList source.values).entries strict = source.reread := by
  have hnodup := source.values_nodup
  cases source with
  | root =>
    have htype := get_ofList "type" hnodup (.head _)
    have hpath := get_ofList "path" hnodup (.tail _ (.head _))
    have hfields : ∀ field ∈ ["type".toList, "path".toList],
        field ∈ ["type", "path"].map String.toList := by decide
    rw [parsePackageSource, htype, requiredString_string, ok_bind, if_pos rfl,
      rejectUnknownLockFields_ofList hnodup hfields, ok_bind, hpath, requiredString_string]
    rfl
  | git url requestedRev commit treeHashes =>
    have htype := get_ofList "type" hnodup (.head _)
    have hurl := get_ofList "url" hnodup (.tail _ (.head _))
    have hrev := get_ofList "requested_rev" hnodup (.tail _ (.tail _ (.head _)))
    have hcommit := get_ofList "commit" hnodup (.tail _ (.tail _ (.tail _ (.head _))))
    have hhashes := get_ofList "tree_hashes" hnodup
      (.tail _ (.tail _ (.tail _ (.tail _ (.head _)))))
    have hfields : ∀ field ∈ ["type".toList, "url".toList, "requested_rev".toList, "commit".toList,
        "tree_hashes".toList], field ∈ ["type", "url", "requested_rev", "commit",
          "tree_hashes"].map String.toList := by decide
    have hhashNodup : ([stringValue "sha256" treeHashes.sha256.toText].map Prod.fst).Nodup :=
      List.nodup_singleton _
    have hsha := get_ofList "sha256" hhashNodup (.head _)
    have hhashFields : ∀ field ∈ ["sha256".toList], field ∈ ["sha256"].map String.toList := by
      decide
    rw [parsePackageSource, htype, requiredString_string, ok_bind, if_neg (by decide), if_pos rfl,
      rejectUnknownLockFields_ofList hnodup hfields, ok_bind, hurl, requiredString_string, ok_bind,
      PackageSource.reread]
    refine congrArg (_ >>= ·) (funext fun read => ?_)
    rw [hrev, requiredString_string, ok_bind, GitCommitHash.new_value, mapError_ok, ok_bind, hcommit,
      requiredString_string, ok_bind, GitCommitHash.new_value, mapError_ok, ok_bind, hhashes,
      requiredTable_tableValue, ok_bind, rejectUnknownLockFields_ofList hhashNodup hhashFields,
      ok_bind, hsha, requiredString_string, ok_bind, Sha256Digest.new_toText, mapError_ok, ok_bind]

/-- The table of the dependencies lists them in the order of the map. -/
theorem LockedPackage.ofList_dependencyValues (package : LockedPackage lib) :
    (SortedMap.ofList package.dependencyValues).entries = package.dependencyValues := by
  have hsorted : package.dependencyValues.Pairwise fun a b => a.1 < b.1 := by
    rw [dependencyValues, List.pairwise_map]
    exact package.dependencies.sorted
  have hmap : SortedMap.ofList package.dependencyValues = ⟨package.dependencyValues, hsorted⟩ :=
    ext_perm (ofList_perm package.dependencyValues_nodup)
  rw [hmap]

theorem parsePackageDependencies_values (package : LockedPackage lib) :
    parsePackageDependencies (Toml.tableValue package.dependencyValues) =
      .ok package.dependencies := by
  have hentries : package.dependencyValues.mapM parsePackageDependency =
      .ok package.dependencies.entries := by
    rw [mapM_eq_ok, LockedPackage.dependencyValues, List.forall₂_map_left_iff]
    refine List.forall₂_same.mpr fun dependency _ => ?_
    rw [parsePackageDependency, DependencyName.new_value, mapError_ok, ok_bind]
    change ((PackageInstanceId.new dependency.2.value).mapError _ >>= _) = _
    rw [PackageInstanceId.new_value, mapError_ok, ok_bind]
    rfl
  have hmap : SortedMap.ofList package.dependencies.entries = package.dependencies :=
    ext_perm (ofList_perm package.dependencies.keys_nodup)
  change SortedMap.ofList <$> (SortedMap.ofList package.dependencyValues).entries.mapM
    parsePackageDependency = _
  rw [package.ofList_dependencyValues, hentries]
  exact congrArg Except.ok hmap

def LockedPackage.reread (package : LockedPackage lib) :
    Except LockfileParseError (LockedPackage lib) := do
  let source ← package.source.reread
  return { package with source }

theorem LockedPackage.values_fields (package : LockedPackage lib) :
    ∀ field ∈ package.values.map Prod.fst,
      field ∈ ["id", "name", "source_dir", "source", "dependencies"].map String.toList := by
  rw [values]
  split_ifs
  · exact (by decide : ∀ field ∈ ["id".toList, "name".toList, "source_dir".toList, "source".toList],
      field ∈ ["id", "name", "source_dir", "source", "dependencies"].map String.toList)
  · exact (by decide : ∀ field ∈ ["id".toList, "name".toList, "source_dir".toList, "source".toList,
      "dependencies".toList],
      field ∈ ["id", "name", "source_dir", "source", "dependencies"].map String.toList)

theorem LockedPackage.values_of_isEmpty {package : LockedPackage lib}
    (h : package.dependencies.isEmpty = true) :
    "dependencies".toList ∉ package.values.map Prod.fst := by
  rw [values, if_pos h]
  exact (by decide : "dependencies".toList ∉ ["id".toList, "name".toList, "source_dir".toList,
    "source".toList])

theorem LockedPackage.values_of_not_isEmpty {package : LockedPackage lib}
    (h : ¬ package.dependencies.isEmpty = true) :
    ("dependencies".toList, Toml.tableValue package.dependencyValues) ∈ package.values := by
  rw [values, if_neg h]
  exact .tail _ (.tail _ (.tail _ (.tail _ (.head _))))

theorem parseLockedPackage_values (package : LockedPackage lib) (strict : Bool) (index : ℕ) :
    parseLockedPackage lib strict (Toml.tableValue package.values, index) = package.reread := by
  have hnodup := package.values_nodup
  have hid := get_ofList "id" hnodup (.head _)
  have hname := get_ofList "name" hnodup (.tail _ (.head _))
  have hdir := get_ofList "source_dir" hnodup (.tail _ (.tail _ (.head _)))
  have hsource := get_ofList "source" hnodup (.tail _ (.tail _ (.tail _ (.head _))))
  change (rejectUnknownLockFields (SortedMap.ofList package.values).entries _ _ strict >>= _) = _
  rw [rejectUnknownLockFields_ofList hnodup package.values_fields, ok_bind, hid,
    requiredString_string, ok_bind, PackageInstanceId.new_value, mapError_ok, ok_bind, hname,
    requiredString_string, ok_bind, PackageName.new_value, mapError_ok, ok_bind, hdir,
    requiredString_string, ok_bind, parseLockSourceDir, PackageSourceDirectory.new_toText,
    mapError_ok, ok_bind, hsource, requiredTable_tableValue, ok_bind, parsePackageSource_values,
    LockedPackage.reread]
  refine congrArg (_ >>= ·) (funext fun source => ?_)
  by_cases hempty : package.dependencies.isEmpty
  · have hnone := get_ofList_none "dependencies" (package.values_of_isEmpty hempty)
    have hmap : package.dependencies = .empty :=
      ext_perm (by rw [List.isEmpty_iff.mp hempty]; exact .refl _)
    rw [hnone, hmap]
    rfl
  · have hsome := get_ofList "dependencies" hnodup (package.values_of_not_isEmpty hempty)
    rw [hsome]
    change (parsePackageDependencies _ >>= _) = _
    rw [parsePackageDependencies_values, ok_bind]

theorem parseLockedPlugin_values (plugin : LockedPlugin) (strict : Bool) (index : ℕ) :
    parseLockedPlugin strict (Toml.tableValue plugin.values, index) = .ok plugin := by
  have hnodup := plugin.values_nodup
  have hpath := get_ofList "path" hnodup (.head _)
  have hsha := get_ofList "sha256" hnodup (.tail _ (.head _))
  have hfields : ∀ field ∈ ["path".toList, "sha256".toList],
      field ∈ ["path", "sha256"].map String.toList := by decide
  change (rejectUnknownLockFields (SortedMap.ofList plugin.values).entries _ _ strict >>= _) = _
  rw [rejectUnknownLockFields_ofList hnodup hfields, ok_bind, hpath, requiredString_string, ok_bind,
    hsha, requiredString_string, ok_bind, LockedPlugin.new_toText, mapError_ok]

/-- Items read one by one, whatever their indices, are read as a list. -/
theorem mapM_zipIdx {α β γ ε : Type} {f : α → β} {g : β × ℕ → Except ε γ} {h : α → Except ε γ}
    {items : List α} (hread : ∀ a ∈ items, ∀ index, g (f a, index) = h a) :
    (items.map f).zipIdx.mapM g = items.mapM h := by
  have hfrom : ∀ (items : List α) (start : ℕ), (∀ a ∈ items, ∀ index, g (f a, index) = h a) →
      ((items.map f).zipIdx start).mapM g = items.mapM h := by
    intro items
    induction items with
    | nil => exact fun start _ => rfl
    | cons a items ih =>
      intro start hread
      rw [List.map_cons, List.zipIdx_cons, List.mapM_cons, List.mapM_cons,
        hread a List.mem_cons_self, ih _ fun b hb => hread b (List.mem_cons_of_mem a hb)]
  exact hfrom items 0 hread

namespace Lockfile

variable (lockfile : Lockfile lib)

theorem values_fields :
    ∀ field ∈ lockfile.values.map Prod.fst, field ∈ lockFields.map String.toList := by
  rw [values]
  split_ifs
  · exact (by decide : ∀ field ∈ ["lock_version".toList, "created_by".toList,
      "graphcal_version".toList, "stdlib_version".toList, "root".toList, "package".toList],
      field ∈ lockFields.map String.toList)
  · exact (by decide : ∀ field ∈ ["lock_version".toList, "created_by".toList,
      "graphcal_version".toList, "stdlib_version".toList, "root".toList, "package".toList,
      "plugin".toList], field ∈ lockFields.map String.toList)

theorem mem_values_of_mem_ownValues {entry : Text × Toml.Value} (h : entry ∈ lockfile.ownValues) :
    entry ∈ lockfile.values := List.mem_append_left _ (List.mem_append_left _ h)

theorem packageEntry_mem_values : lockfile.packageEntry ∈ lockfile.values :=
  List.mem_append_left _ (List.mem_append_right _ (.head _))

theorem plugin_not_mem_values {lockfile : Lockfile lib} (h : lockfile.plugins.isEmpty = true) :
    "plugin".toList ∉ lockfile.values.map Prod.fst := by
  rw [values, if_pos h]
  exact (by decide : "plugin".toList ∉ ["lock_version".toList, "created_by".toList,
    "graphcal_version".toList, "stdlib_version".toList, "root".toList, "package".toList])

theorem pluginEntry_mem_values {lockfile : Lockfile lib} (h : ¬ lockfile.plugins.isEmpty = true) :
    lockfile.pluginEntry ∈ lockfile.values := by
  rw [values, if_neg h]
  exact List.mem_append_right _ (.head _)

theorem requiredU64_lockVersion (field : String) :
    requiredU64 (some (.integer lockfile.lockVersion.toNat)) field = .ok lockfile.lockVersion := by
  have hlt := lockfile.lockVersion.toNat_lt
  have hrange : (0 : ℤ) ≤ lockfile.lockVersion.toNat ∧ (lockfile.lockVersion.toNat : ℤ) < 2 ^ 64 := by
    omega
  simp only [requiredU64, Toml.Value.asInteger]
  rw [if_pos hrange, Int.toNat_natCast, UInt64.ofNat_toNat]

theorem parseLockedPlugins_values (strict : Bool) :
    parseLockedPlugins lockfile.pluginEntry.2 strict = .ok lockfile.sortedPlugins := by
  change (lockfile.sortedPlugins.map fun plugin => Toml.tableValue plugin.values).zipIdx.mapM
    (parseLockedPlugin strict) = _
  rw [mapM_zipIdx (h := .ok) fun plugin _ index => parseLockedPlugin_values plugin strict index,
    mapM_eq_ok]
  exact List.forall₂_same.mpr fun _ _ => rfl

/-- The table of a lockfile is read as its sorted entries, with the URLs parsed again. -/
theorem parseLockTable_values :
    parseLockTable lib (SortedMap.ofList lockfile.values).entries .unbounded = (do
      let packages ← lockfile.sortedPackages.mapM LockedPackage.reread
      return { lockfile with packages, plugins := lockfile.sortedPlugins }) := by
  have hnodup := lockfile.values_nodup
  have hown : ∀ {entry}, entry ∈ lockfile.ownValues → entry ∈ lockfile.values :=
    lockfile.mem_values_of_mem_ownValues
  have hversion := get_ofList "lock_version" hnodup (hown (.head _))
  have hcreated := get_ofList "created_by" hnodup (hown (.tail _ (.head _)))
  have hgraphcal := get_ofList "graphcal_version" hnodup (hown (.tail _ (.tail _ (.head _))))
  have hstdlib := get_ofList "stdlib_version" hnodup
    (hown (.tail _ (.tail _ (.tail _ (.head _)))))
  have hroot := get_ofList "root" hnodup (hown (.tail _ (.tail _ (.tail _ (.tail _ (.head _))))))
  have hpackage := get_ofList "package" hnodup lockfile.packageEntry_mem_values
  have hread : ∀ package ∈ lockfile.sortedPackages, ∀ index,
      parseLockedPackage lib (lockfile.lockVersion == ProvenGraphcal.lockVersion)
        (Toml.tableValue package.values, index) = package.reread := fun package _ index =>
    parseLockedPackage_values package _ index
  have harray : packageArray (SortedMap.ofList lockfile.values).entries =
      .ok (lockfile.sortedPackages.map fun package => Toml.tableValue package.values) := by
    rw [packageArray, hpackage]
    rfl
  rw [parseLockTable, hversion, requiredU64_lockVersion, ok_bind]
  simp only
  rw [rejectUnknownLockFields_ofList hnodup lockfile.values_fields, ok_bind, hcreated,
    requiredString_string, ok_bind, hgraphcal, requiredString_string, ok_bind, hstdlib,
    requiredString_string, ok_bind, hroot, requiredString_string, ok_bind,
    PackageInstanceId.new_value, mapError_ok, ok_bind, harray, ok_bind,
    show LockfileParseLimits.unbounded.check _ = .ok () from rfl, ok_bind, mapM_zipIdx hread]
  refine congrArg (_ >>= ·) (funext fun packages => ?_)
  by_cases hplugins : lockfile.plugins.isEmpty
  · have hnone := get_ofList_none "plugin" (lockfile.plugin_not_mem_values hplugins)
    have hnil : lockfile.sortedPlugins = [] := by
      rw [sortedPlugins, List.isEmpty_iff.mp hplugins, List.mergeSort_nil]
    rw [hnone, hnil]
    rfl
  · have hsome := get_ofList "plugin" hnodup (lockfile.pluginEntry_mem_values hplugins)
    rw [hsome]
    change (parseLockedPlugins lockfile.pluginEntry.2 _ >>= _) = _
    rw [parseLockedPlugins_values, ok_bind]

end Lockfile

/-! ## The round trip -/

/-- The same entries in some order; the dependencies of a package are a map. -/
structure Lockfile.SameUpToOrder (a b : Lockfile lib) : Prop where
  lockVersion : a.lockVersion = b.lockVersion
  createdBy : a.createdBy = b.createdBy
  graphcalVersion : a.graphcalVersion = b.graphcalVersion
  stdlibVersion : a.stdlibVersion = b.stdlibVersion
  root : a.root = b.root
  packages : a.packages.Perm b.packages
  plugins : a.plugins.Perm b.plugins

/-- The source is the root, or its URL is read back. -/
def PackageSource.Rereadable : PackageSource lib → Prop
  | root => True
  | git url .. => url.Rereadable

/-- The parser reads what TOML reads in a text of the fragment. -/
def ReadsToml (parseToml : TomlParser) : Prop :=
  ∀ text table, Toml.read text = some table → parseToml text = .ok table.entries

theorem PackageSource.reread_eq_ok (hlib : lib.Documented) (source : PackageSource lib) :
    (source.Rereadable → source.reread = .ok source) ∧
      ∀ read, source.reread = .ok read → source.Rereadable := by
  cases source with
  | root => exact ⟨fun _ => rfl, fun _ _ => trivial⟩
  | git url requestedRev commit treeHashes =>
    obtain ⟨hread, hreread⟩ := url.parse_toText hlib
    refine ⟨fun h => ?_, fun read h => ?_⟩
    · rw [reread, GitUrl.new_eq_ok.mpr (hread h)]
      rfl
    · obtain ⟨url', hurl, -⟩ := bind_eq_ok.mp h
      exact hreread url'.kind (GitUrl.new_eq_ok.mp (mapError_eq_ok.mp hurl))

theorem LockedPackage.reread_eq_ok (hlib : lib.Documented) (package : LockedPackage lib) :
    (package.source.Rereadable → package.reread = .ok package) ∧
      ∀ read, package.reread = .ok read → package.source.Rereadable := by
  obtain ⟨hread, hreread⟩ := package.source.reread_eq_ok hlib
  refine ⟨fun h => ?_, fun read h => ?_⟩
  · rw [reread, hread h]
    rfl
  · obtain ⟨source, hsource, -⟩ := bind_eq_ok.mp h
    exact hreread source hsource

/-- A written lockfile is read as its sorted entries, with the URLs parsed again. -/
theorem parseLockfileStr_toDeterministicToml {parseToml : TomlParser} (hparser : ReadsToml parseToml)
    {lockfile : Lockfile lib} (hversion : lockfile.lockVersion = ProvenGraphcal.lockVersion)
    (hpackages : lockfile.packages ≠ []) :
    parseLockfileStr parseToml lib lockfile.toDeterministicToml = (do
      let packages ← lockfile.sortedPackages.mapM LockedPackage.reread
      return { lockfile with packages, plugins := lockfile.sortedPlugins }) := by
  have hread := hparser _ _ (Lockfile.read_toDeterministicToml hversion hpackages)
  rw [parseLockfileStr, parseLockfileStrWithLimits, hread, mapError_ok, ok_bind,
    Lockfile.parseLockTable_values]

/-- Lists of entries with distinct keys sort to one list. -/
theorem mergeSort_eq_of_perm {α κ : Type} [LinearOrder κ] {key : α → κ} {l l' : List α}
    (hperm : l.Perm l') (hkeys : (l.map key).Nodup) :
    (l.mergeSort fun a b => key a ≤ key b) = l'.mergeSort fun a b => key a ≤ key b := by
  have htrans : ∀ a b c : α, decide (key a ≤ key b) = true → decide (key b ≤ key c) = true →
      decide (key a ≤ key c) = true := fun a b c hab hbc =>
    decide_eq_true ((of_decide_eq_true hab).trans (of_decide_eq_true hbc))
  have htotal : ∀ a b : α, (decide (key a ≤ key b) || decide (key b ≤ key a)) = true :=
    fun a b => by simpa using le_total (key a) (key b)
  have hsorted := List.pairwise_mergeSort htrans htotal
  have hsame := ((List.mergeSort_perm l fun a b => key a ≤ key b).trans hperm).trans
    (List.mergeSort_perm l' fun a b => key a ≤ key b).symm
  refine hsame.eq_of_pairwise (fun a b ha hb hab hba => ?_) (hsorted l) (hsorted l')
  have hmem : ∀ c ∈ l'.mergeSort (fun a b => key a ≤ key b), c ∈ l := fun c hc =>
    hperm.mem_iff.mpr (List.mem_mergeSort.mp hc)
  exact List.inj_on_of_nodup_map hkeys (List.mem_mergeSort.mp ha) (hmem b hb)
    (le_antisymm (of_decide_eq_true hab) (of_decide_eq_true hba))

theorem Lockfile.toDeterministicToml_congr {a b : Lockfile lib} (h : a.SameUpToOrder b)
    (hids : (b.packages.map LockedPackage.id).Nodup)
    (hpaths : (b.plugins.map LockedPlugin.path).Nodup) :
    a.toDeterministicToml = b.toDeterministicToml := by
  have hpackages : b.sortedPackages = a.sortedPackages := mergeSort_eq_of_perm h.packages.symm hids
  have hplugins : b.sortedPlugins = a.sortedPlugins := mergeSort_eq_of_perm h.plugins.symm hpaths
  rw [Lockfile.toDeterministicToml, Lockfile.toDeterministicToml, hpackages, hplugins,
    h.lockVersion, h.createdBy, h.graphcalVersion, h.stdlibVersion, h.root]

/-- A validated lockfile is read back up to the order of its entries just if its Git URLs are; its
text does not depend on the order of the entries, and every string is read back. -/
theorem lockfile_roundTrip [DecidableEq Host] {parseToml : TomlParser}
    (hparser : ReadsToml parseToml) (hlib : lib.Documented) {graphcal stdlib : Text}
    (valid : ValidatedLockfile lib graphcal stdlib) :
    ((∃ read, parseLockfileStr parseToml lib valid.lockfile.toDeterministicToml = .ok read ∧
        read.SameUpToOrder valid.lockfile) ↔
      ∀ package ∈ valid.lockfile.packages, package.source.Rereadable) ∧
    (∀ other : Lockfile lib, other.SameUpToOrder valid.lockfile →
      other.toDeterministicToml = valid.lockfile.toDeterministicToml) ∧
    ∀ value rest : Text, Toml.readBasic .plain (pushEscapedString [] value ++ '"' :: rest) =
      some (value, rest) := by
  obtain ⟨hcurrent, -, hwf⟩ := check_eq_ok.mp valid.checked
  have hpackages : valid.lockfile.packages ≠ [] := by
    obtain ⟨package, hpackage, -⟩ := hwf.root
    exact List.ne_nil_of_mem hpackage
  have hsorted : ∀ package, package ∈ valid.lockfile.sortedPackages ↔
      package ∈ valid.lockfile.packages := fun package =>
    valid.lockfile.sortedPackages_perm.mem_iff
  refine ⟨⟨?_, fun h => ?_⟩, fun other h => Lockfile.toDeterministicToml_congr h hwf.ids hwf.plugins,
    readBasic_pushEscapedString⟩
  · rintro ⟨read, hread, -⟩ package hpackage
    rw [parseLockfileStr_toDeterministicToml hparser hcurrent.lock hpackages] at hread
    obtain ⟨packages, hmap, -⟩ := bind_eq_ok.mp hread
    obtain ⟨reread, -, hreread⟩ := exists_of_forall₂_right (mapM_eq_ok.mp hmap).flip
      ((hsorted package).mpr hpackage)
    exact (package.reread_eq_ok hlib).2 reread hreread
  · have hmap : valid.lockfile.sortedPackages.mapM LockedPackage.reread =
        .ok valid.lockfile.sortedPackages := by
      rw [mapM_eq_ok]
      exact List.forall₂_same.mpr fun package hpackage =>
        (package.reread_eq_ok hlib).1 (h package ((hsorted package).mp hpackage))
    refine ⟨{ valid.lockfile with
      packages := valid.lockfile.sortedPackages, plugins := valid.lockfile.sortedPlugins }, ?_,
      ⟨rfl, rfl, rfl, rfl, rfl, valid.lockfile.sortedPackages_perm,
        valid.lockfile.sortedPlugins_perm⟩⟩
    rw [parseLockfileStr_toDeterministicToml hparser hcurrent.lock hpackages, hmap]
    rfl

namespace TrailingSlash

def isDomainChar (c : Char) : Bool := c.isLower || c.isDigit || c == '.' || c == '-'

def unitsUrl : ParsedUrl Text where
  scheme := "https".toList
  username := []
  password := none
  host := some "github.com".toList
  port := none
  pathSegments := some ["acme".toList, "units.git".toList]
  query := none
  fragment := none

/-- Hosts are domains of ASCII characters, and one URL is known. -/
def urls : UrlLibrary Text where
  parseUrl value := if value = "https://github.com/acme/units.git".toList then some unitsUrl else none
  parseHost text := if !text.isEmpty && text.all isDomainChar then some text else none
  displayHost := id

theorem isDomainChar_plain {c : Char} (h : isDomainChar c = true) :
    isPlainChar c = true ∧ c ∉ "/:@%?#".toList := by
  have hother : ∀ d ∈ '\\' :: "/:@%?#".toList, isDomainChar d = false :=
    Text.forall_mem_of_all (by decide)
  have hne : c ∉ '\\' :: "/:@%?#".toList := fun hmem => by
    rw [hother c hmem] at h
    cases h
  rw [List.mem_cons, not_or] at hne
  have hrange : 45 ≤ c.toNat ∧ c.toNat ≤ 122 := by
    simp only [isDomainChar, Bool.or_eq_true, beq_iff_eq] at h
    rcases h with ((hlower | hdigit) | rfl) | rfl
    · unfold Char.isLower at hlower
      simp only [Bool.and_eq_true, decide_eq_true_eq, ge_iff_le, UInt32.le_iff_toNat_le] at hlower
      exact ⟨le_trans (by decide) hlower.1, hlower.2⟩
    · have hrange := Char.isDigit_iff_toNat.mp hdigit
      exact ⟨le_trans (by decide) hrange.1, le_trans hrange.2 (by decide)⟩
    · decide
    · decide
  refine ⟨isPlainChar_iff.mpr ⟨?_, ?_, hne.1⟩, hne.2⟩
  · simp [Text.isControl]
    omega
  · simp [Text.isWhitespace]
    omega

theorem parseHost_eq_some {text host : Text} (h : urls.parseHost text = some host) :
    host = text ∧ ∀ c ∈ text, isDomainChar c = true := by
  change (if !text.isEmpty && text.all isDomainChar then some text else none) = some host at h
  split_ifs at h with hdomain
  rw [Bool.and_eq_true, List.all_eq_true] at hdomain
  exact ⟨(Option.some.inj h).symm, hdomain.2⟩

theorem parseUrl_eq_some {value : Text} {parsed : ParsedUrl Text}
    (h : urls.parseUrl value = some parsed) : parsed = unitsUrl := by
  change (if value = "https://github.com/acme/units.git".toList then some unitsUrl else none) =
    some parsed at h
  split_ifs at h
  exact (Option.some.inj h).symm

theorem urls_documented : urls.Documented where
  host_text := by
    intro text host _ hhost c hc
    obtain ⟨rfl, hdomain⟩ := parseHost_eq_some hhost
    exact isDomainChar_plain (hdomain c hc)
  host_display := by
    intro text host _ hhost
    obtain ⟨rfl, -⟩ := parseHost_eq_some hhost
    exact hhost
  url_text := by
    intro value parsed host segments _ hparsed _ hhost hsegments
    obtain rfl := parseUrl_eq_some hparsed
    cases hhost
    cases hsegments
    intro part hpart
    simp only [List.mem_cons, List.not_mem_nil, or_false] at hpart
    rcases hpart with rfl | rfl | rfl | rfl <;> exact Text.forall_mem_of_all (by decide)
  url_assemble := by
    intro value parsed host segments path hparsed _ hhost hsegments hne hcomponents hshape
    obtain rfl := parseUrl_eq_some hparsed
    cases hhost
    cases hsegments
    rcases hshape with rfl | hshape
    · rfl
    · have hlast := congrArg List.getLast? hshape
      rw [List.getLast?_concat] at hlast
      exact absurd hlast (by decide)

/-- A parser of the fragment. -/
def parseToml : TomlParser := fun text =>
  match Toml.read text with
  | some table => .ok table.entries
  | none => .error "invalid TOML".toList

theorem parseToml_reads : ReadsToml parseToml := by
  intro text table h
  rw [parseToml, h]

open SelfAlias (commit digest sourceDir units unitsAlias)

def blankText : Text := "git@github.com:acme/units.git /".toList

/-- The dropped slash leaves a path that ends in a blank. -/
def blankUrl : GitUrl urls :=
  ⟨.scp "git".toList "github.com".toList ["acme".toList, "units.git ".toList], blankText,
    by decide +kernel⟩

def source : PackageSource urls := .git blankUrl commit commit digest

def lockfile : Lockfile urls where
  lockVersion := ProvenGraphcal.lockVersion
  createdBy := "graphcal".toList
  graphcalVersion := "1".toList
  stdlibVersion := "1".toList
  root := ⟨"pkg-mission".toList, by decide⟩
  packages := [
    { id := ⟨"pkg-mission".toList, by decide⟩
      name := ⟨"mission".toList, by decide⟩
      sourceDir := sourceDir
      source := .root
      dependencies := .ofList [(unitsAlias, ⟨"pkg-units".toList, by decide⟩)] },
    { id := ⟨"pkg-units".toList, by decide⟩
      name := units
      sourceDir := sourceDir
      source := source
      dependencies := .empty }]
  plugins := []

def valid : ValidatedLockfile urls "1".toList "1".toList := ⟨lockfile, by decide +kernel⟩

/-- The validated lockfile is written as a text that is not read. -/
theorem written_not_read : ReadsToml parseToml ∧ urls.Documented ∧
    ¬ ∃ read, parseLockfileStr parseToml urls valid.lockfile.toDeterministicToml = .ok read := by
  refine ⟨parseToml_reads, urls_documented, ?_⟩
  rintro ⟨read, hread⟩
  rw [parseLockfileStr_toDeterministicToml parseToml_reads rfl (List.cons_ne_nil _ _)] at hread
  obtain ⟨packages, hmap, -⟩ := bind_eq_ok.mp hread
  obtain ⟨package, hpackage, hsource⟩ : ∃ package ∈ lockfile.packages, package.source = source :=
    ⟨_, .tail _ (.head _), rfl⟩
  obtain ⟨reread, -, hreread⟩ := exists_of_forall₂_right (mapM_eq_ok.mp hmap).flip
    (lockfile.sortedPackages_perm.mem_iff.mpr hpackage)
  have hrereadable := (package.reread_eq_ok urls_documented).2 reread hreread
  rw [hsource] at hrereadable
  exact absurd (hrereadable.2 ' ' (by decide)) (by decide)

/-- The condition fails at this lockfile, and with it the round trip. -/
theorem roundTrip_instantiated :
    ((∃ read, parseLockfileStr parseToml urls valid.lockfile.toDeterministicToml = .ok read ∧
        read.SameUpToOrder valid.lockfile) ↔
      ∀ package ∈ valid.lockfile.packages, package.source.Rereadable) ∧
    (∀ other : Lockfile urls, other.SameUpToOrder valid.lockfile →
      other.toDeterministicToml = valid.lockfile.toDeterministicToml) ∧
    ∀ value rest : Text, Toml.readBasic .plain (pushEscapedString [] value ++ '"' :: rest) =
      some (value, rest) :=
  lockfile_roundTrip parseToml_reads urls_documented valid

end TrailingSlash

end ProvenGraphcal
