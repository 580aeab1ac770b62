import ProvenGraphcal.Package.LockfileToml

/-!
# The document that a lockfile is written as

The written text is the text of a TOML document, which is well formed, so a TOML parser gives the
table of its entries.
-/

namespace ProvenGraphcal

open Checked Toml
open List (append_assoc mapM_cons map_map mem_cons mem_map nil_perm)

variable {Host : Type} {lib : UrlLibrary Host}

theorem isControl_lt {c : Char} (h : Text.isControl c = true) : c.toNat < 65536 := by
  simp [Text.isControl] at h
  omega

theorem isUnescaped_of_not_control {c : Char} (h : Text.isControl c = false) (hquote : c ≠ '"')
    (hbackslash : c ≠ '\\') : isUnescaped c = true := by
  simp [Text.isControl] at h
  simp [isUnescaped, hquote, hbackslash]
  omega

theorem spells_escapedText (c : Char) : Spells (escapedText c) c := by
  rw [escapedText]
  split_ifs with h₁ h₂ h₃ h₄ h₅ h₆ h₇ h₈
  · exact h₁ ▸ spells_escaped rfl
  · exact h₂ ▸ spells_escaped rfl
  · exact h₃ ▸ spells_escaped rfl
  · exact h₄ ▸ spells_escaped rfl
  · exact h₅ ▸ spells_escaped rfl
  · exact h₆ ▸ spells_escaped rfl
  · exact h₇ ▸ spells_escaped rfl
  · exact spells_fourDigits (isControl_lt h₈)
  · exact spells_unescaped (isUnescaped_of_not_control (Bool.eq_false_iff.mpr h₈) h₂ h₁)

theorem newline_ne_hexDigit : ∀ n < 16, '\n' ≠ hexDigit n := by decide

theorem newline_not_mem_escapedText (c : Char) : '\n' ∉ escapedText c := by
  rw [escapedText]
  split_ifs with h₁ h₂ h₃ h₄ h₅ h₆ h₇ h₈
  · decide
  · decide
  · decide
  · decide
  · decide
  · decide
  · decide
  · have hlt := isControl_lt h₈
    simp only [escapeHex, fourDigits, List.mem_append, List.mem_cons, not_or]
    exact ⟨by decide, newline_ne_hexDigit _ (by omega), newline_ne_hexDigit _ (by omega),
      newline_ne_hexDigit _ (by omega), newline_ne_hexDigit _ (by omega), List.not_mem_nil⟩
  · rw [List.mem_singleton]
    exact fun h => h₃ h.symm

def lockSpelling : Spelling := ⟨escapedText, spells_escapedText, newline_not_mem_escapedText⟩

/-- An escaped string is read back, whatever its characters. -/
theorem readBasic_pushEscapedString (value rest : Text) :
    readBasic .plain (pushEscapedString [] value ++ '"' :: rest) = some (value, rest) :=
  readBasic_spell lockSpelling value rest

def stringEntry (key : String) (value : Text) : Text × Leaf := (key.toList, .string value)

def PackageSource.entries : PackageSource lib → List (Text × Leaf)
  | root => [stringEntry "type" "path".toList, stringEntry "path" ".".toList]
  | git url requestedRev commit treeHashes =>
    [stringEntry "type" "git".toList, stringEntry "url" url.toText,
      stringEntry "requested_rev" requestedRev.value, stringEntry "commit" commit.value,
      ("tree_hashes".toList, .inline [("sha256".toList, treeHashes.sha256.toText)])]

def LockedPackage.dependencyEntries (package : LockedPackage lib) : List (Text × Leaf) :=
  package.dependencies.entries.map fun dependency =>
    (dependency.1.value, .string dependency.2.value)

def LockedPackage.element (package : LockedPackage lib) : Element where
  array := "package".toList
  entries := [stringEntry "id" package.id.value, stringEntry "name" package.name.value,
    stringEntry "source_dir" package.sourceDir.toText]
  members := ("source".toList, package.source.entries) ::
    if package.dependencies.isEmpty then []
    else [("dependencies".toList, package.dependencyEntries)]

def LockedPlugin.element (plugin : LockedPlugin) : Element where
  array := "plugin".toList
  entries := [stringEntry "path" plugin.path.toText, stringEntry "sha256" plugin.sha256.toText]
  members := []

def Lockfile.document (lockfile : Lockfile lib) : Document where
  entries := [("lock_version".toList, .integer lockfile.lockVersion.toNat),
    stringEntry "created_by" lockfile.createdBy,
    stringEntry "graphcal_version" lockfile.graphcalVersion,
    stringEntry "stdlib_version" lockfile.stdlibVersion, stringEntry "root" lockfile.root.value]
  elements := lockfile.sortedPackages.map LockedPackage.element ++
    lockfile.sortedPlugins.map LockedPlugin.element

abbrev lockLines (lines : List Line) : Text := renderLines lockSpelling lines

theorem lockLines_append (before after : List Line) :
    lockLines (before ++ after) = lockLines before ++ lockLines after := List.flatMap_append

theorem pushKvString_eq (out : Text) (key : String) (value : Text) :
    pushKvString out key value = out ++ lockLines (entryLines [stringEntry key value]) := by
  simp [pushKvString, pushEscapedString, lockLines, renderLines, renderLine, renderLeaf,
    renderString, lockSpelling, entryLines, stringEntry]

theorem pushKvU64_eq (out : Text) (key : String) (value : UInt64) :
    pushKvU64 out key value =
      out ++ lockLines (entryLines [(key.toList, .integer value.toNat)]) := by
  simp [pushKvU64, lockLines, renderLines, renderLine, renderLeaf, entryLines,
    Nat.toString_eq_repr, Nat.toList_repr]

theorem pushKvInlineTable_eq (out : Text) (key name : String) (value : Text) :
    pushKvInlineTable out key [(name, value)] =
      out ++ lockLines (entryLines [(key.toList, .inline [(name.toList, value)])]) := by
  simp [pushKvInlineTable, pushEscapedString, lockLines, renderLines, renderLine, renderLeaf,
    renderPair, renderString, lockSpelling, entryLines, List.intercalate_singleton]

theorem entryLines_append (before after : List (Text × Leaf)) :
    entryLines (before ++ after) = entryLines before ++ entryLines after := List.map_append

theorem PackageSource.push_eq (out : Text) (source : PackageSource lib) :
    source.push out = out ++ lockLines (entryLines source.entries) := by
  cases source with
  | root =>
    simp only [push, pushKvString_eq, append_assoc, ← lockLines_append, ← entryLines_append]
    rfl
  | git url requestedRev commit treeHashes =>
    simp only [push, pushKvString_eq, pushKvInlineTable_eq, append_assoc, ← lockLines_append,
      ← entryLines_append]
    rfl

/-- A loop that appends what each item contributes. -/
theorem foldl_push {α : Type} {push : Text → α → Text} {lines : α → List Line}
    (h : ∀ out a, push out a = out ++ lockLines (lines a)) (out : Text) (l : List α) :
    l.foldl push out = out ++ lockLines (l.flatMap lines) := by
  induction l generalizing out with
  | nil => exact (List.append_nil out).symm
  | cons a l ih => rw [List.foldl_cons, ih, h, List.flatMap_cons, lockLines_append, append_assoc]

theorem pushDependency_eq (out : Text) (dependency : DependencyName × PackageInstanceId) :
    pushKvString out (String.ofList dependency.1.value) dependency.2.value =
      out ++ lockLines [.entry dependency.1.value (.string dependency.2.value)] := by
  rw [pushKvString_eq, stringEntry, String.toList_ofList]
  rfl

theorem LockedPackage.push_eq (out : Text) (package : LockedPackage lib) :
    package.push out = out ++ lockLines package.element.lines := by
  have hpackage : "\n[[package]]\n".toList = lockLines [.blank, .element "package".toList] := rfl
  have hsource : "\n[package.source]\n".toList =
      lockLines [.blank, .member "package".toList "source".toList] := rfl
  have hdependencies : "\n[package.dependencies]\n".toList =
      lockLines [.blank, .member "package".toList "dependencies".toList] := rfl
  have hlines : package.dependencies.entries.flatMap (fun dependency =>
      [Line.entry dependency.1.value (.string dependency.2.value)]) =
      entryLines package.dependencyEntries := by
    rw [entryLines, dependencyEntries, map_map, List.map_eq_flatMap]
    rfl
  rw [push]
  split_ifs with hempty
  · simp only [hpackage, hsource, pushKvString_eq, PackageSource.push_eq, append_assoc,
      ← lockLines_append, ← entryLines_append]
    have hmembers : package.element.members = [("source".toList, package.source.entries)] :=
      congrArg (List.cons _) (if_pos hempty)
    refine congrArg (fun lines => out ++ lockLines lines) ?_
    rw [Element.lines, hmembers, List.flatMap_singleton]
    rfl
  · rw [foldl_push pushDependency_eq, hlines]
    simp only [hpackage, hsource, hdependencies, pushKvString_eq, PackageSource.push_eq,
      append_assoc, ← lockLines_append, ← entryLines_append]
    have hmembers : package.element.members = [("source".toList, package.source.entries),
        ("dependencies".toList, package.dependencyEntries)] :=
      congrArg (List.cons _) (if_neg hempty)
    refine congrArg (fun lines => out ++ lockLines lines) ?_
    rw [Element.lines, hmembers, List.flatMap_cons, List.flatMap_singleton, append_assoc]
    rfl

theorem LockedPlugin.push_eq (out : Text) (plugin : LockedPlugin) :
    plugin.push out = out ++ lockLines plugin.element.lines := by
  have hplugin : "\n[[plugin]]\n".toList = lockLines [.blank, .element "plugin".toList] := rfl
  rw [push]
  simp only [hplugin, pushKvString_eq, append_assoc, ← lockLines_append, ← entryLines_append]
  rfl

theorem Lockfile.toDeterministicToml_eq (lockfile : Lockfile lib) :
    lockfile.toDeterministicToml = lockfile.document.render lockSpelling := by
  rw [Lockfile.toDeterministicToml]
  simp only [foldl_push LockedPackage.push_eq, foldl_push LockedPlugin.push_eq, pushKvU64_eq,
    pushKvString_eq, append_assoc, List.nil_append, ← lockLines_append, ← entryLines_append]
  have helements : lockfile.document.elements.flatMap Element.lines =
      lockfile.sortedPackages.flatMap (fun package => package.element.lines) ++
        lockfile.sortedPlugins.flatMap fun plugin => plugin.element.lines := by
    have hshape : lockfile.document.elements =
        lockfile.sortedPackages.map LockedPackage.element ++
          lockfile.sortedPlugins.map LockedPlugin.element := rfl
    rw [hshape, List.flatMap_append, List.flatMap_map, List.flatMap_map]
  rw [Document.render, Document.lines, helements]
  rfl

def EntriesWellFormed (entries : List (Text × Leaf)) : Prop :=
  ∀ entry ∈ entries, isBareKey entry.1 = true ∧ entry.2.WellFormed

theorem entryLines_wellFormed {entries : List (Text × Leaf)} (h : EntriesWellFormed entries) :
    ∀ line ∈ entryLines entries, line.WellFormed := by
  intro line hline
  obtain ⟨entry, hentry, rfl⟩ := mem_map.mp hline
  exact h entry hentry

theorem EntriesWellFormed.nil : EntriesWellFormed [] := nofun

theorem EntriesWellFormed.cons {entry : Text × Leaf} {entries : List (Text × Leaf)}
    (hkey : isBareKey entry.1 = true) (hleaf : entry.2.WellFormed)
    (hrest : EntriesWellFormed entries) : EntriesWellFormed (entry :: entries) :=
  List.forall_mem_cons.mpr ⟨⟨hkey, hleaf⟩, hrest⟩

theorem isBareKey_of_isValidName {name : Text} (h : isValidName name = true) :
    isBareKey name = true := by
  simp only [isValidName, Bool.and_eq_true, List.all_eq_true] at h
  rw [isBareKey, Bool.and_eq_true, List.all_eq_true]
  refine ⟨h.1.1, fun c hc => ?_⟩
  have hchar := h.2 c hc
  simp only [Bool.or_eq_true] at hchar
  rcases hchar with (hlower | hdigit) | hunderscore
  · unfold isBareKeyChar Char.isAlphanum Char.isAlpha
    simp [hlower]
  · simp [isBareKeyChar, Char.isAlphanum, hdigit]
  · simp [isBareKeyChar, hunderscore]

theorem PackageSource.entries_wellFormed (source : PackageSource lib) :
    EntriesWellFormed source.entries := by
  cases source with
  | root => exact .cons rfl trivial (.cons rfl trivial .nil)
  | git url requestedRev commit treeHashes =>
    have hhashes : (Leaf.inline [("sha256".toList, treeHashes.sha256.toText)]).WellFormed :=
      ⟨List.cons_ne_nil _ _, fun pair hpair => by rw [List.mem_singleton.mp hpair]; rfl⟩
    exact .cons rfl trivial (.cons rfl trivial (.cons rfl trivial (.cons rfl trivial
      (.cons rfl hhashes .nil))))

theorem LockedPackage.dependencyEntries_wellFormed (package : LockedPackage lib) :
    EntriesWellFormed package.dependencyEntries := by
  intro entry hentry
  obtain ⟨dependency, -, rfl⟩ := mem_map.mp hentry
  exact ⟨isBareKey_of_isValidName dependency.1.valid, trivial⟩

/-- The lines of an element with bare keys are well formed. -/
theorem element_lines_wellFormed {element : Element} (harray : isBareKey element.array = true)
    (hentries : EntriesWellFormed element.entries)
    (hmembers : ∀ member ∈ element.members, isBareKey member.1 = true ∧ EntriesWellFormed member.2) :
    ∀ line ∈ element.lines, line.WellFormed := by
  intro line hline
  simp only [Element.lines, List.mem_append, mem_cons, List.not_mem_nil, or_false,
    List.mem_flatMap] at hline
  rcases hline with ((rfl | rfl) | hline) | ⟨member, hmember, (rfl | rfl) | hline⟩
  · trivial
  · exact harray
  · exact entryLines_wellFormed hentries line hline
  · trivial
  · exact ⟨harray, (hmembers member hmember).1⟩
  · exact entryLines_wellFormed (hmembers member hmember).2 line hline

theorem LockedPackage.element_wellFormed (package : LockedPackage lib) :
    ∀ line ∈ package.element.lines, line.WellFormed := by
  refine element_lines_wellFormed rfl (.cons rfl trivial (.cons rfl trivial
    (.cons rfl trivial .nil))) fun member hmember => ?_
  rcases mem_cons.mp hmember with rfl | hmember
  · exact ⟨rfl, package.source.entries_wellFormed⟩
  · split_ifs at hmember
    · cases hmember
    · rw [List.mem_singleton.mp hmember]
      exact ⟨rfl, package.dependencyEntries_wellFormed⟩

theorem LockedPlugin.element_wellFormed (plugin : LockedPlugin) :
    ∀ line ∈ plugin.element.lines, line.WellFormed :=
  element_lines_wellFormed rfl (.cons rfl trivial (.cons rfl trivial .nil)) nofun

theorem Lockfile.document_wellFormed (lockfile : Lockfile lib) :
    ∀ line ∈ lockfile.document.lines, line.WellFormed := by
  have hentries : EntriesWellFormed lockfile.document.entries :=
    .cons rfl trivial (.cons rfl trivial (.cons rfl trivial (.cons rfl trivial
      (.cons rfl trivial .nil))))
  intro line hline
  simp only [Document.lines, document, List.mem_append, List.flatMap_append, List.mem_flatMap,
    mem_map] at hline
  rcases hline with hline | ⟨_, ⟨package, -, rfl⟩, hline⟩ | ⟨_, ⟨plugin, -, rfl⟩, hline⟩
  · exact entryLines_wellFormed hentries line hline
  · exact package.element_wellFormed line hline
  · exact plugin.element_wellFormed line hline

/-! ## The table of the document -/

def stringValue (key : String) (value : Text) : Text × Value := (key.toList, .string value)

def PackageSource.values : PackageSource lib → List (Text × Value)
  | root => [stringValue "type" "path".toList, stringValue "path" ".".toList]
  | git url requestedRev commit treeHashes =>
    [stringValue "type" "git".toList, stringValue "url" url.toText,
      stringValue "requested_rev" requestedRev.value, stringValue "commit" commit.value,
      ("tree_hashes".toList, tableValue [stringValue "sha256" treeHashes.sha256.toText])]

def LockedPackage.dependencyValues (package : LockedPackage lib) : List (Text × Value) :=
  package.dependencies.entries.map fun dependency =>
    (dependency.1.value, .string dependency.2.value)

def LockedPackage.values (package : LockedPackage lib) : List (Text × Value) :=
  [stringValue "id" package.id.value, stringValue "name" package.name.value,
    stringValue "source_dir" package.sourceDir.toText] ++
  (("source".toList, tableValue package.source.values) ::
    if package.dependencies.isEmpty then []
    else [("dependencies".toList, tableValue package.dependencyValues)])

def LockedPlugin.values (plugin : LockedPlugin) : List (Text × Value) :=
  [stringValue "path" plugin.path.toText, stringValue "sha256" plugin.sha256.toText]

/-- The values of the fields that are no arrays. -/
def Lockfile.ownValues (lockfile : Lockfile lib) : List (Text × Value) :=
  [("lock_version".toList, .integer lockfile.lockVersion.toNat),
    stringValue "created_by" lockfile.createdBy,
    stringValue "graphcal_version" lockfile.graphcalVersion,
    stringValue "stdlib_version" lockfile.stdlibVersion, stringValue "root" lockfile.root.value]

def Lockfile.packageEntry (lockfile : Lockfile lib) : Text × Value :=
  ("package".toList, .array (lockfile.sortedPackages.map fun package =>
    tableValue package.values))

def Lockfile.pluginEntry (lockfile : Lockfile lib) : Text × Value :=
  ("plugin".toList, .array (lockfile.sortedPlugins.map fun plugin => tableValue plugin.values))

def Lockfile.values (lockfile : Lockfile lib) : List (Text × Value) :=
  lockfile.ownValues ++ [lockfile.packageEntry] ++
  if lockfile.plugins.isEmpty then [] else [lockfile.pluginEntry]

theorem PackageSource.values_nodup (source : PackageSource lib) :
    (source.values.map Prod.fst).Nodup := by
  cases source with
  | root => exact (by decide : ["type".toList, "path".toList].Nodup)
  | git url requestedRev commit treeHashes =>
    exact (by decide : ["type".toList, "url".toList, "requested_rev".toList, "commit".toList,
      "tree_hashes".toList].Nodup)

theorem LockedPackage.dependencyValues_nodup (package : LockedPackage lib) :
    (package.dependencyValues.map Prod.fst).Nodup := by
  have hkeys : package.dependencyValues.map Prod.fst =
      package.dependencies.keys.map DependencyName.value := by
    rw [dependencyValues, SortedMap.keys, map_map, map_map]
    rfl
  rw [hkeys]
  exact package.dependencies.keys_nodup.map DependencyName.value_injective

theorem LockedPackage.values_nodup (package : LockedPackage lib) :
    (package.values.map Prod.fst).Nodup := by
  rw [values]
  split_ifs
  · exact (by decide : ["id".toList, "name".toList, "source_dir".toList, "source".toList].Nodup)
  · exact (by decide : ["id".toList, "name".toList, "source_dir".toList, "source".toList,
      "dependencies".toList].Nodup)

theorem LockedPlugin.values_nodup (plugin : LockedPlugin) :
    (plugin.values.map Prod.fst).Nodup :=
  (by decide : ["path".toList, "sha256".toList].Nodup)

theorem Lockfile.values_nodup (lockfile : Lockfile lib) :
    (lockfile.values.map Prod.fst).Nodup := by
  rw [values]
  split_ifs
  · exact (by decide : ["lock_version".toList, "created_by".toList, "graphcal_version".toList,
      "stdlib_version".toList, "root".toList, "package".toList].Nodup)
  · exact (by decide : ["lock_version".toList, "created_by".toList, "graphcal_version".toList,
      "stdlib_version".toList, "root".toList, "package".toList, "plugin".toList].Nodup)

theorem PackageSource.entryValues_entries (source : PackageSource lib) :
    entryValues source.entries = some source.values := by
  cases source with
  | root => rfl
  | git url requestedRev commit treeHashes => rfl

theorem LockedPackage.entryValues_dependencies (package : LockedPackage lib) :
    entryValues package.dependencyEntries = some package.dependencyValues := by
  rw [dependencyEntries, dependencyValues]
  induction package.dependencies.entries with
  | nil => rfl
  | cons dependency rest ih =>
    rw [entryValues] at ih ⊢
    rw [List.map_cons, mapM_cons, ih]
    rfl

theorem LockedPackage.element_table (package : LockedPackage lib) :
    package.element.table = some (.ofList package.values) := by
  have hown : entryValues package.element.entries = some [stringValue "id" package.id.value,
      stringValue "name" package.name.value,
      stringValue "source_dir" package.sourceDir.toText] := rfl
  have hsource : memberValue ("source".toList, package.source.entries) =
      some ("source".toList, tableValue package.source.values) :=
    memberValue_eq package.source.entryValues_entries package.source.values_nodup
  have hdependencies : memberValue ("dependencies".toList, package.dependencyEntries) =
      some ("dependencies".toList, tableValue package.dependencyValues) :=
    memberValue_eq package.entryValues_dependencies package.dependencyValues_nodup
  have hmembers : package.element.members.mapM memberValue =
      some (("source".toList, tableValue package.source.values) ::
        if package.dependencies.isEmpty then []
        else [("dependencies".toList, tableValue package.dependencyValues)]) := by
    have hshape : package.element.members = ("source".toList, package.source.entries) ::
        if package.dependencies.isEmpty then []
        else [("dependencies".toList, package.dependencyEntries)] := rfl
    rw [hshape, mapM_cons, hsource]
    split_ifs
    · rfl
    · rw [mapM_cons, hdependencies]
      rfl
  rw [Element.table, hown, hmembers]
  exact tableOf_eq package.values_nodup

theorem LockedPlugin.element_table (plugin : LockedPlugin) :
    plugin.element.table = some (.ofList plugin.values) := tableOf_eq plugin.values_nodup

theorem get?_ofList_eq_none {entries : List (Text × Value)} {key : Text}
    (h : key ∉ entries.map Prod.fst) : (SortedMap.ofList entries).get? key = none := by
  rw [Option.eq_none_iff_forall_ne_some]
  intro value hvalue
  exact h (List.mem_map_of_mem (f := Prod.fst) (SortedMap.mem_of_get?_ofList hvalue))

theorem ofList_concat (entries : List (Text × Value)) (key : Text) (value : Value) :
    SortedMap.ofList (entries ++ [(key, value)]) = (SortedMap.ofList entries).insert key value := by
  rw [SortedMap.ofList, List.foldl_append]
  rfl

/-- The elements of items append the array of their tables, under a key that is free. -/
theorem foldlM_elements {α : Type} (element : α → Element) (values : α → List (Text × Value))
    (array : Text) {items : List α} (hne : items ≠ [])
    (harray : ∀ a ∈ items, (element a).array = array ∧
      (element a).table = some (.ofList (values a)))
    {entries : List (Text × Value)} (hfree : array ∉ entries.map Prod.fst) :
    (items.map element).foldlM addElement (.ofList entries) =
      some (.ofList (entries ++ [(array, .array (items.map fun a => tableValue (values a)))])) := by
  have hitems : arrayItems (.ofList entries) array = some [] := by
    rw [arrayItems, get?_ofList_eq_none hfree]
  have htables : List.Forall₂ (fun element table => element.array = array ∧
      element.table = some table) (items.map element)
      (items.map fun a => SortedMap.ofList (values a)) := by
    rw [List.forall₂_map_left_iff, List.forall₂_map_right_iff]
    exact List.forall₂_same.mpr harray
  rw [foldlM_addElement htables (by simpa using hne) hitems, ofList_concat, List.nil_append,
    map_map]
  rfl

theorem Lockfile.sortedPackages_perm (lockfile : Lockfile lib) :
    lockfile.sortedPackages.Perm lockfile.packages := List.mergeSort_perm _ _

theorem Lockfile.sortedPlugins_perm (lockfile : Lockfile lib) :
    lockfile.sortedPlugins.Perm lockfile.plugins := List.mergeSort_perm _ _

theorem Lockfile.document_table {lockfile : Lockfile lib}
    (hversion : lockfile.lockVersion = ProvenGraphcal.lockVersion)
    (hpackages : lockfile.packages ≠ []) :
    lockfile.document.table = some (.ofList lockfile.values) := by
  have hversionValue : (Leaf.integer lockfile.lockVersion.toNat).value =
      some (.integer lockfile.lockVersion.toNat) := by
    rw [Leaf.value, if_pos]
    rw [hversion]
    decide
  have hown : entryTable lockfile.document.entries = some (.ofList lockfile.ownValues) := by
    have hentries : entryValues lockfile.document.entries = some lockfile.ownValues := by
      have hshape : lockfile.document.entries =
          ("lock_version".toList, .integer lockfile.lockVersion.toNat) ::
            [stringEntry "created_by" lockfile.createdBy,
              stringEntry "graphcal_version" lockfile.graphcalVersion,
              stringEntry "stdlib_version" lockfile.stdlibVersion,
              stringEntry "root" lockfile.root.value] := rfl
      rw [hshape, entryValues, mapM_cons, hversionValue]
      rfl
    rw [entryTable, hentries, Option.bind_some]
    exact tableOf_eq (by decide : ["lock_version".toList, "created_by".toList,
      "graphcal_version".toList, "stdlib_version".toList, "root".toList].Nodup)
  have hfree : "package".toList ∉ lockfile.ownValues.map Prod.fst :=
    (by decide : "package".toList ∉ ["lock_version".toList, "created_by".toList,
      "graphcal_version".toList, "stdlib_version".toList, "root".toList])
  have hfree' : "plugin".toList ∉ (lockfile.ownValues ++ [lockfile.packageEntry]).map Prod.fst :=
    (by decide : "plugin".toList ∉ ["lock_version".toList, "created_by".toList,
      "graphcal_version".toList, "stdlib_version".toList, "root".toList, "package".toList])
  have hsorted : lockfile.sortedPackages ≠ [] := by
    intro h
    have hperm := lockfile.sortedPackages_perm
    rw [h, nil_perm] at hperm
    exact hpackages hperm
  have helements : lockfile.document.elements = lockfile.sortedPackages.map LockedPackage.element ++
      lockfile.sortedPlugins.map LockedPlugin.element := rfl
  have hpackagesTable := foldlM_elements LockedPackage.element LockedPackage.values
    "package".toList hsorted (fun package _ => ⟨rfl, package.element_table⟩) hfree
  rw [Document.table, hown, Option.bind_some, helements, List.foldlM_append, hpackagesTable,
    Option.bind_eq_bind, Option.bind_some]
  by_cases hplugins : lockfile.plugins.isEmpty
  · have hnil : lockfile.sortedPlugins = [] := by
      rw [sortedPlugins, List.isEmpty_iff.mp hplugins, List.mergeSort_nil]
    have hvalues : lockfile.values = lockfile.ownValues ++ [lockfile.packageEntry] ++ [] :=
      congrArg _ (if_pos hplugins)
    rw [hnil, hvalues, List.append_nil]
    rfl
  · have hsortedPlugins : lockfile.sortedPlugins ≠ [] := by
      intro h
      have hperm := lockfile.sortedPlugins_perm
      rw [h, nil_perm] at hperm
      exact hplugins (List.isEmpty_iff.mpr hperm)
    have hvalues : lockfile.values = lockfile.ownValues ++ [lockfile.packageEntry] ++
        [lockfile.pluginEntry] := congrArg _ (if_neg hplugins)
    have hpluginsTable := foldlM_elements LockedPlugin.element LockedPlugin.values
      "plugin".toList hsortedPlugins (fun plugin _ => ⟨rfl, plugin.element_table⟩) hfree'
    rw [hvalues]
    exact hpluginsTable

/-- A text of the fragment: the table of a written lockfile. -/
theorem Lockfile.read_toDeterministicToml {lockfile : Lockfile lib}
    (hversion : lockfile.lockVersion = ProvenGraphcal.lockVersion)
    (hpackages : lockfile.packages ≠ []) :
    Toml.read lockfile.toDeterministicToml = some (.ofList lockfile.values) := by
  rw [Toml.read, lockfile.toDeterministicToml_eq,
    Document.parse_render lockSpelling lockfile.document_wellFormed, Option.bind_some,
    Lockfile.document_table hversion hpackages]

end ProvenGraphcal
