import ProvenGraphcal.SourceTree.Snapshot

/-!
# Capturing a mounted snapshot

The in-memory filesystem reads as a finite tree. A captured snapshot mounts without a conflict, and
a capture of the mounted filesystem returns its files.
-/

namespace ProvenGraphcal.SourceTree

open FileSystemTree (content_of_file node_append node_ne_none_of_isPrefix walked_leaf)
open InsertionMap (mem_keys)

/-! ## The tree of an in-memory filesystem -/

variable {path : AbsPath} {bytes : Bytes} {name : Name}

namespace InMemoryFileSystem

variable (fs : InMemoryFileSystem)

theorem isDir_iff :
    fs.isDir path = true ↔ ∃ key ∈ fs.files.keys, key ≠ path ∧ path <+: key := by
  simp [isDir, isDirOf]

def node (path : AbsPath) : Option Node :=
  match fs.files.get? path with
  | some bytes => some (.file bytes)
  | none => if fs.isDir path then some .directory else none

/-- The first component of `key` below `path`. -/
def childName (path key : AbsPath) : Option Name :=
  match stripPrefix path key with
  | some (name :: _) => some name
  | _ => none

/-- The names below `path`, without a limit. -/
def childNames (path : AbsPath) : List AbsPath → SortedMap Name Unit → SortedMap Name Unit :=
  fun keys names => (keys.filterMap (childName path)).foldl (fun m name => m.insert name ()) names

def listing (path : AbsPath) : List Name := (childNames path fs.files.keys .empty).keys

theorem node_ne_none :
    fs.node path ≠ none ↔ ∃ key ∈ fs.files.keys, path <+: key := by
  unfold node
  split
  case h_1 bytes hbytes =>
    refine ⟨fun _ => ⟨path, mem_keys.mpr ⟨bytes, hbytes⟩, List.prefix_rfl⟩, nofun⟩
  case h_2 hnone =>
    split_ifs with hdir
    · obtain ⟨key, hkey, -, hpre⟩ := fs.isDir_iff.mp hdir
      exact ⟨fun _ => ⟨key, hkey, hpre⟩, nofun⟩
    · refine ⟨fun h => absurd rfl h, fun ⟨key, hkey, hpre⟩ => ?_⟩
      refine absurd (fs.isDir_iff.mpr ⟨key, hkey, ?_, hpre⟩) hdir
      rintro rfl
      exact InsertionMap.get?_eq_none.mp hnone hkey

theorem node_eq_file :
    fs.node path = some (.file bytes) ↔ fs.files.get? path = some bytes := by
  unfold node
  split
  case h_1 bytes' hbytes => simp [hbytes]
  case h_2 hnone => split_ifs <;> simp [hnone]

/-- Nothing lies below a file. -/
theorem node_of_below {below : AbsPath} (hbelow : below ≠ [])
    (h : ∃ key ∈ fs.files.keys, path ++ below <+: key) : fs.node path = some .directory := by
  obtain ⟨key, hkey, hpre⟩ := h
  have hpath : path <+: key := (List.prefix_append path below).trans hpre
  have hne : key ≠ path := by
    rintro rfl
    have hlength := hpre.length_le
    rw [List.length_append] at hlength
    exact hbelow (List.eq_nil_of_length_eq_zero (by omega))
  have hdir : fs.isDir path = true := fs.isDir_iff.mpr ⟨key, hkey, hne, hpath⟩
  unfold node
  split
  case h_1 bytes hbytes =>
    have htopology := fs.topology path (mem_keys.mpr ⟨bytes, hbytes⟩)
    rw [← isDir, hdir] at htopology
    cases htopology
  case h_2 => rw [if_pos hdir]

theorem childName_eq_some {key : AbsPath} :
    childName path key = some name ↔ path ++ [name] <+: key := by
  unfold childName stripPrefix
  constructor
  · intro h
    by_cases hpre : path.isPrefixOf key
    · obtain ⟨below, rfl⟩ := List.isPrefixOf_iff_prefix.mp hpre
      rw [if_pos hpre, List.drop_left] at h
      cases below with
      | nil => cases h
      | cons first below =>
        cases h
        exact ⟨below, by simp⟩
    · rw [if_neg hpre] at h
      cases h
  · rintro ⟨below, rfl⟩
    have hpre : path.isPrefixOf (path ++ [name] ++ below) = true :=
      List.isPrefixOf_iff_prefix.mpr ⟨[name] ++ below, by simp⟩
    rw [if_pos hpre, List.append_assoc, List.drop_left]
    rfl

theorem mem_keys_foldl {names : List Name} {m : SortedMap Name Unit} :
    name ∈ (names.foldl (fun m name => m.insert name ()) m).keys ↔
      name ∈ names ∨ name ∈ m.keys := by
  induction names generalizing m with
  | nil => simp
  | cons first rest ih =>
    rw [List.foldl_cons, ih, List.mem_cons, SortedMap.mem_keys, SortedMap.mem_keys]
    simp only [SortedMap.get?_insert]
    split_ifs with h <;> simp [h]

theorem mem_listing :
    name ∈ fs.listing path ↔ ∃ key ∈ fs.files.keys, path ++ [name] <+: key := by
  rw [listing, childNames, mem_keys_foldl, List.mem_filterMap]
  simp only [childName_eq_some]
  exact or_iff_left (by simp [SortedMap.keys])

theorem length_le_foldl (names : List Name) (m : SortedMap Name Unit) :
    m.entries.length ≤ (names.foldl (fun m name => m.insert name ()) m).entries.length := by
  have hsubset : m.keys ⊆ (names.foldl (fun m name => m.insert name ()) m).keys :=
    fun name hname => mem_keys_foldl.mpr (.inr hname)
  have h := (m.keys_nodup.subperm hsubset).length_le
  simpa [SortedMap.keys] using h

/-- The bounded listing fails as soon as the names seen exceed the limit, that is, when all names
together do. -/
theorem foldlM_addChildName (path : AbsPath) (limit : ℕ) (keys : List AbsPath)
    {names : SortedMap Name Unit} (hnames : names.entries.length ≤ limit) :
    keys.foldlM (addChildName path limit) names =
      if (childNames path keys names).entries.length > limit then .error (.entryLimitExceeded limit)
      else .ok (childNames path keys names) := by
  induction keys generalizing names with
  | nil =>
    rw [if_neg (by simpa [childNames] using hnames)]
    rfl
  | cons key rest ih =>
    rw [List.foldlM_cons]
    cases hchild : childName path key with
    | none =>
      have hsame : addChildName path limit names key = .ok names := by
        unfold childName at hchild
        unfold addChildName
        split <;> simp_all
      have hrest : childNames path (key :: rest) names = childNames path rest names := by
        rw [childNames, List.filterMap_cons_none hchild]
        rfl
      rw [hsame, hrest]
      exact ih hnames
    | some name =>
      have hrest : childNames path (key :: rest) names =
          childNames path rest (names.insert name ()) := by
        rw [childNames, List.filterMap_cons_some hchild]
        rfl
      have hadd : addChildName path limit names key =
          if (names.insert name ()).entries.length > limit then .error (.entryLimitExceeded limit)
          else .ok (names.insert name ()) := by
        unfold childName at hchild
        unfold addChildName
        split <;> simp_all
      rw [hadd, hrest]
      split_ifs with hinsert hfull hfull
      · rfl
      · have hgrows := length_le_foldl (rest.filterMap (childName path)) (names.insert name ())
        exact absurd (hinsert.trans_le hgrows) hfull
      · exact (ih (not_lt.mp hinsert)).trans (if_pos hfull)
      · exact (ih (not_lt.mp hinsert)).trans (if_neg hfull)

theorem childNamesBounded_eq (path : AbsPath) (limit : ℕ) :
    fs.childNamesBounded path limit =
      if (fs.listing path).length > limit then .error (.entryLimitExceeded limit)
      else .ok (fs.listing path) := by
  have hlength : (fs.listing path).length =
      (childNames path fs.files.keys .empty).entries.length := List.length_map _
  rw [childNamesBounded, foldlM_addChildName path limit fs.files.keys (Nat.zero_le _), hlength]
  split_ifs <;> rfl

theorem existingPath_eq (path : AbsPath) :
    fs.existingPath path = if fs.node path ≠ none then .ok path else .error .notFound := by
  unfold existingPath node InsertionMap.contains
  cases fs.files.get? path with
  | some bytes => rfl
  | none => cases fs.isDir path <;> rfl

/-- The files with the directories they imply, as a tree. -/
def tree : FileSystemTree where
  node := fs.node
  listing := fs.listing
  resolve := fs.existingPath
  finite := by
    refine Set.Finite.subset (fs.files.keys.flatMap List.inits).finite_toSet fun path hpath => ?_
    obtain ⟨key, hkey, hpre⟩ := fs.node_ne_none.mp hpath
    exact List.mem_flatMap.mpr ⟨key, hkey, (List.mem_inits path key).mpr hpre⟩
  parent path name h := fs.node_of_below (by simp) (fs.node_ne_none.mp h)
  listing_nodup path := SortedMap.keys_nodup _
  mem_listing path name _ := by rw [fs.mem_listing, fs.node_ne_none]
  resolve_file path bytes h := by
    rw [fs.existingPath_eq, if_pos (by rw [h]; exact nofun)]
    exact ⟨path, rfl, h⟩
  resolve_directory path h := by
    rw [fs.existingPath_eq, if_pos (by rw [h]; exact nofun)]
    exact ⟨path, rfl, h, fun _ => Iff.rfl⟩

/-- An in-memory filesystem is read as its tree is. -/
theorem tree_reader : fs.tree.reader = fs.reader := by
  have hfile : ∀ path bytes, fs.files.get? path = some bytes → fs.isDir path = false := by
    intro path bytes hbytes
    exact fs.topology path (mem_keys.mpr ⟨bytes, hbytes⟩)
  refine FileSystemReader.ext ?_ rfl ?_ ?_
  · funext path limit
    cases hpath : fs.files.get? path with
    | some bytes => simp [tree, FileSystemTree.reader, reader, node, hpath]
    | none =>
      cases hdir : fs.isDir path <;>
        simp [tree, FileSystemTree.reader, reader, node, hpath, hdir]
  · funext path
    cases hpath : fs.files.get? path with
    | some bytes =>
      simp [tree, FileSystemTree.reader, reader, node, InsertionMap.contains, hpath, Node.kind]
    | none =>
      cases hdir : fs.isDir path <;>
        simp [tree, FileSystemTree.reader, reader, node, InsertionMap.contains, hpath, hdir,
          Node.kind]
  · funext path limit
    have hread : fs.reader.readDirectoryBounded path limit =
        (fs.existingPath path).mapError .io >>= fun path =>
          if !fs.isDir path then .error (.io .notADirectory)
          else fs.childNamesBounded path limit := rfl
    rw [hread, fs.existingPath_eq]
    cases hpath : fs.files.get? path with
    | some bytes =>
      simp [tree, FileSystemTree.reader, node, hpath, hfile path bytes hpath, Except.mapError,
        Bind.bind, Except.bind]
    | none =>
      cases hdir : fs.isDir path <;>
        simp [tree, FileSystemTree.reader, node, hpath, hdir, childNamesBounded_eq,
          Except.mapError, Bind.bind, Except.bind]

end InMemoryFileSystem

/-- Neither path lies at or below the other. -/
def Apart (path path' : AbsPath) : Prop := ¬ path <+: path' ∧ ¬ path' <+: path

theorem InMemoryFileSystem.insert_of_apart {fs : InMemoryFileSystem} (content : Bytes)
    (h : ∀ key ∈ fs.files.keys, Apart path key) :
    ∃ fs', fs.insert path content = .ok fs' ∧ fs'.files = fs.files.insert path content := by
  have hdir : ¬ fs.isDir path = true := by
    rw [fs.isDir_iff]
    rintro ⟨key, hkey, -, hpre⟩
    exact (h key hkey).1 hpre
  have hfind : fs.files.keys.find? (fun key => key ≠ path && key.isPrefixOf path) = none := by
    rw [List.find?_eq_none]
    intro key hkey hbelow
    rw [Bool.and_eq_true, List.isPrefixOf_iff_prefix] at hbelow
    exact (h key hkey).2 hbelow.2
  unfold insert
  rw [dif_neg hdir]
  split
  case h_1 ancestor hsome =>
    rw [hfind] at hsome
    cases hsome
  case h_2 => exact ⟨_, rfl, rfl⟩

/-- Files apart from each other are mounted one after the other. -/
theorem foldlM_mountFile {root : AbsPath} {files : List (PortableRelativePath × Bytes)}
    (fs : InMemoryFileSystem)
    (hfiles : files.Pairwise fun a b => Apart (root ++ a.1.components) (root ++ b.1.components))
    (hkeys : ∀ file ∈ files, ∀ key ∈ fs.files.keys, Apart (root ++ file.1.components) key) :
    ∃ fs', files.foldlM (mountFile root) fs = .ok fs' ∧
      ∀ path bytes, fs'.files.get? path = some bytes ↔
        fs.files.get? path = some bytes ∨
          ∃ file ∈ files, path = root ++ file.1.components ∧ file.2 = bytes := by
  induction files generalizing fs with
  | nil => exact ⟨fs, rfl, fun path bytes => by simp⟩
  | cons file rest ih =>
    rw [List.pairwise_cons] at hfiles
    rw [List.forall_mem_cons] at hkeys
    obtain ⟨next, hnext, hinserted⟩ :=
      InMemoryFileSystem.insert_of_apart file.2 hkeys.1
    have hnew : ∀ key, key ∈ next.files.keys ↔
        key = root ++ file.1.components ∨ key ∈ fs.files.keys := by
      intro key
      rw [mem_keys, mem_keys, hinserted]
      simp only [InsertionMap.get?_insert]
      split_ifs with hkey <;> simp [hkey]
    have hrest : ∀ other ∈ rest, ∀ key ∈ next.files.keys,
        Apart (root ++ other.1.components) key := by
      intro other hother key hkey
      rcases (hnew key).mp hkey with rfl | hkey
      · exact (hfiles.1 other hother).symm
      · exact hkeys.2 other hother key hkey
    obtain ⟨fs', hmounted, hget⟩ := ih next hfiles.2 hrest
    have hfirst : mountFile root fs file = .ok next := by
      simp only [mountFile, hnext]
      rfl
    refine ⟨fs', ?_, fun path bytes => ?_⟩
    · rw [List.foldlM_cons, hfirst]
      exact hmounted
    · have hold : fs.files.get? (root ++ file.1.components) = none := by
        rw [InsertionMap.get?_eq_none]
        exact fun hmem => (hkeys.1 _ hmem).1 List.prefix_rfl
      rw [hget, hinserted, InsertionMap.get?_insert]
      simp only [List.mem_cons, exists_eq_or_imp]
      split_ifs with hpath
      · subst hpath
        simp [hold]
      · simp [hpath]

/-! ## Capturing again -/

variable {limits : SourceTreeHashLimits} {snapshot : SourceTreeSnapshot}

section

variable {t : FileSystemTree} {root mountRoot : AbsPath} {sourceDir : RelPath}

/-- The mounted files are the captured ones. -/
def Mounted (t : FileSystemTree) (root : AbsPath) (sourceDir : RelPath) (mountRoot : AbsPath)
    (fs : InMemoryFileSystem) : Prop :=
  ∀ path bytes, fs.files.get? path = some bytes ↔
    ∃ relative ∈ t.captured root sourceDir, path = mountRoot ++ relative ∧
      t.content (root ++ relative) = bytes

/-- Captured files do not lie below each other. -/
theorem captured_apart {path path' : RelPath} (h : path ∈ t.captured root sourceDir)
    (h' : path' ∈ t.captured root sourceDir) (hpre : path <+: path') : path = path' := by
  obtain ⟨below, rfl⟩ := hpre
  by_contra hne
  obtain ⟨bytes, hbytes⟩ := h.2
  have hbelow : t.node (root ++ path ++ below) ≠ none := by
    rw [List.append_assoc]
    exact h'.1.elim (·.2.2) (·.2.2)
  rw [node_append (fun hnil => hne (by simp [hnil])) hbelow] at hbytes
  cases hbytes

theorem manifest_captured (h : Capturable t root sourceDir limits)
    (hmanifest : t.node (root ++ [manifestName]) ≠ some .directory) :
    [manifestName] ∈ t.captured root sourceDir := by
  have hwalked : [manifestName] ∈ t.walked root [manifestName] :=
    ⟨List.prefix_rfl, manifest_not_git, h.manifest⟩
  exact ⟨.inr hwalked, (h.admissible _ (.inr hwalked)).plain.resolve_left hmanifest⟩

theorem mount_of_holds
    (hutf8 : ∀ path ∈ t.captured root sourceDir, ∀ name ∈ path, isUtf8 name.bytes)
    (h : Holds t root sourceDir snapshot) (mountRoot : AbsPath) :
    ∃ fs, snapshot.mount mountRoot = .ok fs ∧ Mounted t root sourceDir mountRoot fs := by
  have hentry : ∀ file, file ∈ snapshot.files.entries ↔
      ∃ path ∈ t.captured root sourceDir, portableRelativePath path = .ok file.1 ∧
        t.content (root ++ path) = file.2 := fun file => by
    rw [← SortedMap.get?_eq_some, h.files]
  have happart : snapshot.files.entries.Pairwise fun a b =>
      Apart (mountRoot ++ a.1.components) (mountRoot ++ b.1.components) := by
    refine snapshot.files.sorted.imp_of_mem fun {a b} ha hb hlt => ?_
    obtain ⟨path, hpath, hkey, -⟩ := (hentry a).mp ha
    obtain ⟨path', hpath', hkey', -⟩ := (hentry b).mp hb
    have hne : path ≠ path' := by
      rintro rfl
      rw [hkey] at hkey'
      exact hlt.ne (Except.ok.inj hkey')
    rw [components_of_portable hkey, components_of_portable hkey', Apart,
      List.prefix_append_right_inj, List.prefix_append_right_inj]
    exact ⟨fun hpre => hne (captured_apart hpath hpath' hpre),
      fun hpre => hne (captured_apart hpath' hpath hpre).symm⟩
  obtain ⟨fs, hmounted, hget⟩ := foldlM_mountFile .new happart fun _ _ _ => nofun
  refine ⟨fs, hmounted, fun path bytes => ?_⟩
  rw [hget]
  constructor
  · rintro (hnew | ⟨file, hfile, rfl, rfl⟩)
    · cases hnew
    · obtain ⟨relative, hrelative, hkey, hcontent⟩ := (hentry file).mp hfile
      rw [components_of_portable hkey]
      exact ⟨relative, hrelative, rfl, hcontent⟩
  · rintro ⟨relative, hrelative, rfl, rfl⟩
    have hkey : portableRelativePath relative =
        .ok ⟨joined relative, relative, hutf8 relative hrelative, rfl⟩ :=
      portableRelativePath_eq_ok.mpr ⟨hutf8 relative hrelative, rfl⟩
    refine .inr ⟨(_, _), (hentry (_, _)).mpr ⟨relative, hrelative, hkey, rfl⟩, ?_, rfl⟩
    rw [components_of_portable hkey]

namespace Mounted

variable {fs : InMemoryFileSystem}

section

variable (h : Mounted t root sourceDir mountRoot fs)

include h

theorem node_eq_file {relative : RelPath} {bytes : Bytes} :
    fs.tree.node (mountRoot ++ relative) = some (.file bytes) ↔
      relative ∈ t.captured root sourceDir ∧ t.content (root ++ relative) = bytes := by
  show fs.node _ = _ ↔ _
  rw [fs.node_eq_file, h]
  constructor
  · rintro ⟨relative', hrelative, heq, hcontent⟩
    rw [List.append_cancel_left heq]
    exact ⟨hrelative, hcontent⟩
  · rintro ⟨hrelative, hcontent⟩
    exact ⟨relative, hrelative, rfl, hcontent⟩

/-- The mounted entries are the captured files and the directories above them. -/
theorem node_ne_none {relative : RelPath} :
    fs.tree.node (mountRoot ++ relative) ≠ none ↔
      ∃ path ∈ t.captured root sourceDir, relative <+: path := by
  show fs.node _ ≠ none ↔ _
  rw [fs.node_ne_none]
  constructor
  · rintro ⟨key, hkey, hpre⟩
    obtain ⟨bytes, hbytes⟩ := mem_keys.mp hkey
    obtain ⟨path, hpath, rfl, -⟩ := (h key bytes).mp hbytes
    exact ⟨path, hpath, (List.prefix_append_right_inj _).mp hpre⟩
  · rintro ⟨path, hpath, hpre⟩
    have hkey : mountRoot ++ path ∈ fs.files.keys :=
      mem_keys.mpr ⟨_, (h _ _).mpr ⟨path, hpath, rfl, rfl⟩⟩
    exact ⟨mountRoot ++ path, hkey, (List.prefix_append_right_inj _).mpr hpre⟩

theorem walked_subset (start : RelPath) : fs.tree.walked mountRoot start ⊆ t.walked root start := by
  rintro relative ⟨hpre, hgit, hnode⟩
  obtain ⟨path, hpath, hbelow⟩ := h.node_ne_none.mp hnode
  exact ⟨hpre, hgit, node_ne_none_of_isPrefix hbelow (hpath.1.elim (·.2.2) (·.2.2))⟩

theorem captured_eq : fs.tree.captured mountRoot sourceDir = t.captured root sourceDir := by
  ext path
  constructor
  · rintro ⟨-, bytes, hbytes⟩
    exact (h.node_eq_file.mp hbytes).1
  · intro hpath
    have hnode : fs.tree.node (mountRoot ++ path) ≠ none :=
      h.node_ne_none.mpr ⟨path, hpath, List.prefix_rfl⟩
    refine ⟨hpath.1.imp (fun hwalked => ⟨hwalked.1, hwalked.2.1, hnode⟩)
      fun hwalked => ⟨hwalked.1, hwalked.2.1, hnode⟩, _, h.node_eq_file.mpr ⟨hpath, rfl⟩⟩

theorem content_eq {path : RelPath} (hpath : path ∈ t.captured root sourceDir) :
    fs.tree.content (mountRoot ++ path) = t.content (root ++ path) :=
  content_of_file (h.node_eq_file.mpr ⟨hpath, rfl⟩)

end

theorem resolve_eq (hnode : fs.tree.node path ≠ none) :
    fs.tree.resolve path = .ok path := by
  show fs.existingPath path = _
  rw [fs.existingPath_eq]
  exact if_pos hnode

/-- An in-memory filesystem holds files and directories only. -/
theorem plain (hnode : fs.tree.node path ≠ none) :
    fs.tree.node path = some .directory ∨ ∃ bytes, fs.tree.node path = some (.file bytes) := by
  change fs.node path ≠ none at hnode
  show fs.node path = _ ∨ ∃ bytes, fs.node path = _
  unfold InMemoryFileSystem.node at hnode ⊢
  split
  case h_1 bytes hbytes => exact .inr ⟨bytes, rfl⟩
  case h_2 hnone =>
    rw [hnone] at hnode
    split_ifs at hnode ⊢
    · exact .inl rfl
    · exact absurd rfl hnode

section

variable (h : Mounted t root sourceDir mountRoot fs)

include h

theorem resolve_root (hmanifest : [manifestName] ∈ t.captured root sourceDir) :
    fs.tree.resolve mountRoot = .ok mountRoot := by
  refine resolve_eq ?_
  rw [← List.append_nil mountRoot, h.node_ne_none]
  exact ⟨_, hmanifest, List.nil_prefix⟩

theorem total_bytes_eq :
    ∑ᶠ path ∈ fs.tree.captured mountRoot sourceDir, (fs.tree.content (mountRoot ++ path)).length =
      ∑ᶠ path ∈ t.captured root sourceDir, (t.content (root ++ path)).length := by
  rw [h.captured_eq]
  exact finsum_mem_congr rfl fun path hpath => by rw [h.content_eq hpath]

/-- The mounted files are capturable if something is left of the source directory: directories
without captured files are not mounted. -/
theorem capturable (hcapturable : Capturable t root sourceDir limits)
    (hmanifest : [manifestName] ∈ t.captured root sourceDir)
    (hsource : containsGitComponent sourceDir = true ∨
      ∃ path ∈ t.captured root sourceDir, sourceDir <+: path) :
    Capturable fs.tree mountRoot sourceDir limits where
  manifest := h.node_ne_none.mpr ⟨_, hmanifest, List.prefix_rfl⟩
  source := hsource.imp id h.node_ne_none.mpr
  admissible path hpath := by
    have hnode : fs.tree.node (mountRoot ++ path) ≠ none := hpath.elim (·.2.2) (·.2.2)
    refine ⟨plain hnode, ⟨_, resolve_eq hnode, List.prefix_append _ _⟩, fun bytes hbytes => ?_⟩
    exact hcapturable.utf8 path (h.node_eq_file.mp hbytes).1
  entries := by
    have hsize : ∀ start, fs.tree.size mountRoot start ≤ t.size root start := fun start =>
      Set.ncard_le_ncard (h.walked_subset start) (t.walked_finite root start)
    exact (Nat.add_le_add (hsize _) (hsize _)).trans hcapturable.entries
  file_bytes path hpath := by
    rw [h.captured_eq] at hpath
    rw [h.content_eq hpath]
    exact hcapturable.file_bytes path hpath
  total_bytes := by
    rw [h.total_bytes_eq]
    exact hcapturable.total_bytes

/-- Two captures of the same files give the same snapshot files. -/
theorem files_eq {snapshot' : SourceTreeSnapshot} (hholds : Holds t root sourceDir snapshot)
    (hholds' : Holds fs.tree mountRoot sourceDir snapshot') : snapshot'.files = snapshot.files := by
  refine SortedMap.ext_get? fun key => Option.ext fun bytes => ?_
  rw [hholds.files, hholds'.files, h.captured_eq]
  refine exists_congr fun path => and_congr_right fun hpath => ?_
  rw [h.content_eq hpath]

theorem capture_sound {limits : SourceTreeHashLimits} {again : SourceTreeSnapshot}
    (hmanifest : [manifestName] ∈ t.captured root sourceDir)
    (hagain : captureSourceTree fs.reader mountRoot sourceDir limits = .ok again) :
    Capturable fs.tree mountRoot sourceDir limits ∧ Holds fs.tree mountRoot sourceDir again := by
  rw [← fs.tree_reader] at hagain
  obtain ⟨root', hroot', hcapturable, hholds⟩ := SourceTree.capture_sound hagain
  rw [h.resolve_root hmanifest] at hroot'
  cases hroot'
  exact ⟨hcapturable, hholds⟩

end

end Mounted

end

/-- `graphcal.toml` or a regular file at or below the source directory, outside `.git`. -/
structure SourceFile (t : FileSystemTree) (root : AbsPath) (sourceDir path : RelPath)
    (bytes : Bytes) : Prop where
  below : path = [manifestName] ∨ sourceDir <+: path
  outside_git : containsGitComponent path = false
  file : t.node (root ++ path) = some (.file bytes)

theorem sourceFile_iff {t : FileSystemTree} {root : AbsPath} {sourceDir path : RelPath}
    (hmanifest : t.node (root ++ [manifestName]) ≠ some .directory) :
    SourceFile t root sourceDir path bytes ↔
      path ∈ t.captured root sourceDir ∧ t.content (root ++ path) = bytes := by
  constructor
  · rintro ⟨hbelow, hgit, hfile⟩
    have hnode : t.node (root ++ path) ≠ none := by rw [hfile]; exact nofun
    refine ⟨⟨?_, bytes, hfile⟩, content_of_file hfile⟩
    rcases hbelow with rfl | hpre
    · exact .inr ⟨List.prefix_rfl, hgit, hnode⟩
    · exact .inl ⟨hpre, hgit, hnode⟩
  · rintro ⟨⟨hwalked, bytes', hfile⟩, rfl⟩
    rw [content_of_file hfile]
    rcases hwalked with ⟨hpre, hgit, -⟩ | ⟨hpre, hgit, hnode⟩
    · exact ⟨.inr hpre, hgit, hfile⟩
    · have hleaf := walked_leaf manifest_not_git
        (node_ne_none_of_isPrefix hpre hnode) hmanifest
      have hpath : path ∈ t.walked root [manifestName] := ⟨hpre, hgit, hnode⟩
      rw [hleaf] at hpath
      exact ⟨.inl hpath, hgit, hfile⟩

/-- A capture of a tree whose `graphcal.toml` is no directory succeeds exactly when both roots
exist and what is walked from them is admissible and fits the limits. The snapshot holds exactly
the source files, whatever the order of the listings; it mounts, and the mounted filesystem is
captured as the same files unless nothing was captured of the source directory. The stream of a
digest determines the files. -/
theorem capture_source_tree (t : FileSystemTree) (path : AbsPath) (sourceDir : RelPath)
    (limits : SourceTreeHashLimits) (sha256 : Bytes → Bytes)
    (hmanifest : ∀ root, t.resolve path = .ok root →
      t.node (root ++ [manifestName]) ≠ some .directory) :
    ((∃ snapshot, captureSourceTree t.reader path sourceDir limits = .ok snapshot) ↔
        ∃ root, t.resolve path = .ok root ∧ Capturable t root sourceDir limits) ∧
      (∀ snapshot, captureSourceTree t.reader path sourceDir limits = .ok snapshot →
        ∃ root, t.resolve path = .ok root ∧
          (∀ key bytes, snapshot.files.get? key = some bytes ↔
            ∃ relative, SourceFile t root sourceDir relative bytes ∧
              portableRelativePath relative = .ok key) ∧
          ∀ mountRoot, ∃ fs, snapshot.mount mountRoot = .ok fs ∧
            ((∃ again, captureSourceTree fs.reader mountRoot sourceDir limits = .ok again) ↔
              containsGitComponent sourceDir = true ∨
                ∃ relative bytes, sourceDir <+: relative ∧
                  SourceFile t root sourceDir relative bytes) ∧
            ∀ again, captureSourceTree fs.reader mountRoot sourceDir limits = .ok again →
              again.files = snapshot.files ∧
                (again.hash sha256).sha256 = (snapshot.hash sha256).sha256) ∧
      (∀ t', SameUpToOrder t t' →
        captureSourceTree t'.reader path sourceDir limits =
          captureSourceTree t.reader path sourceDir limits) ∧
      ∀ snapshot snapshot' : SourceTreeSnapshot, snapshot.NulFree → snapshot'.NulFree →
        snapshot.stream = snapshot'.stream → snapshot.files = snapshot'.files := by
  refine ⟨⟨?_, ?_⟩, ?_, fun t' h => (captureSourceTree_congr h path sourceDir limits).symm,
    fun _ _ => stream_injective⟩
  · rintro ⟨snapshot, h⟩
    obtain ⟨root, hroot, hcapturable, -⟩ := capture_sound h
    exact ⟨root, hroot, hcapturable⟩
  · rintro ⟨root, hroot, hcapturable⟩
    exact capture_total hroot (hmanifest root hroot) hcapturable
  · intro snapshot h
    obtain ⟨root, hroot, hcapturable, hholds⟩ := capture_sound h
    have hsource : ∀ relative bytes, SourceFile t root sourceDir relative bytes ↔
        relative ∈ t.captured root sourceDir ∧ t.content (root ++ relative) = bytes :=
      fun relative bytes => sourceFile_iff (hmanifest root hroot)
    refine ⟨root, hroot, fun key bytes => ?_, fun mountRoot => ?_⟩
    · rw [hholds.files]
      refine exists_congr fun relative => ?_
      rw [hsource]
      tauto
    · obtain ⟨fs, hmount, hmounted⟩ := mount_of_holds hcapturable.utf8 hholds mountRoot
      have hcaptured : [manifestName] ∈ t.captured root sourceDir :=
        manifest_captured hcapturable (hmanifest root hroot)
      refine ⟨fs, hmount, ⟨?_, ?_⟩, fun again hagain => ?_⟩
      · rintro ⟨again, hagain⟩
        refine (hmounted.capture_sound hcaptured hagain).1.source.imp id fun hnode => ?_
        obtain ⟨relative, hrelative, hpre⟩ := hmounted.node_ne_none.mp hnode
        exact ⟨relative, _, hpre, (hsource _ _).mpr ⟨hrelative, rfl⟩⟩
      · intro hleft
        rw [← fs.tree_reader]
        refine capture_total (hmounted.resolve_root hcaptured) ?_
          (hmounted.capturable hcapturable hcaptured (hleft.imp id ?_))
        · rw [hmounted.node_eq_file.mpr ⟨hcaptured, rfl⟩]
          exact nofun
        · rintro ⟨relative, bytes, hpre, hfile⟩
          exact ⟨relative, ((hsource _ _).mp hfile).1, hpre⟩
      · have hholds' := (hmounted.capture_sound hcaptured hagain).2
        have hfiles := hmounted.files_eq hholds hholds'
        refine ⟨hfiles, ?_⟩
        simp only [SourceTreeSnapshot.hash, SourceTreeSnapshot.stream, hfiles]

def sourceName : Name where
  bytes := Utf8Text.bytes "src".toList
  nonempty := by decide
  no_separator := by decide
  not_current := by decide
  not_parent := by decide

/-- A name that is not UTF-8. -/
def rawName : Name where
  bytes := [255]
  nonempty := by decide
  no_separator := by decide
  not_current := by decide
  not_parent := by decide

def bareNode (manifest : Bool) (path : AbsPath) : Option Node :=
  if path = [] ∨ path = [sourceName] ∨ path = [sourceName, rawName] then some .directory
  else if manifest ∧ path = [manifestName] then some (.file [])
  else none

def bareListing (manifest : Bool) (path : AbsPath) : List Name :=
  if path = [] then if manifest then [manifestName, sourceName] else [sourceName]
  else if path = [sourceName] then [rawName]
  else []

variable {manifest : Bool}

theorem bareNode_ne_none (h : bareNode manifest path ≠ none) :
    path ∈ [[], [sourceName], [sourceName, rawName], [manifestName]] := by
  unfold bareNode at h
  split_ifs at h with hdirectory hfile
  · simp only [List.mem_cons]
    tauto
  · simp [hfile.2]
  · exact absurd rfl h

/-- A source directory that holds one empty directory, beside a manifest or without one. -/
def bareTree (manifest : Bool) : FileSystemTree where
  node := bareNode manifest
  listing := bareListing manifest
  resolve path := if bareNode manifest path = none then .error .notFound else .ok path
  finite := Set.Finite.subset (List.finite_toSet _) fun _ => bareNode_ne_none
  parent path name h := by
    have hmem := bareNode_ne_none h
    rcases path with _ | ⟨first, _ | ⟨second, rest⟩⟩
    · rfl
    · simp only [List.mem_cons, List.cons_append, List.nil_append, List.cons.injEq] at hmem
      simp at hmem
      simp [bareNode, hmem.1]
    · simp at hmem
  listing_nodup path := by
    unfold bareListing
    split_ifs <;> decide
  mem_listing path name h := by
    have hpath : path = [] ∨ path = [sourceName] ∨ path = [sourceName, rawName] := by
      unfold bareNode at h
      split_ifs at h with hdirectory hfile
      · exact hdirectory
      · cases h
    rcases hpath with rfl | rfl | rfl
    · cases manifest with
      | false => simp [bareListing, bareNode]
      | true =>
        simp only [bareListing, bareNode]
        split_ifs <;> simp_all
    · simp [bareListing, bareNode]
    · simp [bareListing, bareNode]
  resolve_file path bytes h := by
    exact ⟨path, by rw [if_neg (by rw [h]; exact nofun)], h⟩
  resolve_directory path h := by
    exact ⟨path, by rw [if_neg (by rw [h]; exact nofun)], h, fun _ => Iff.rfl⟩

def SourceTreeHashLimits.unbounded : SourceTreeHashLimits :=
  ⟨2 ^ 64 - 1, 2 ^ 64 - 1, 2 ^ 64 - 1, by decide, by decide, by decide⟩

theorem bare_admissible {path : RelPath} (h : (bareTree manifest).node ([] ++ path) ≠ none) :
    Admissible (bareTree manifest) [] path where
  plain := by
    change bareNode manifest path ≠ none at h
    show bareNode manifest path = _ ∨ ∃ bytes, bareNode manifest path = _
    unfold bareNode at h ⊢
    split_ifs at h ⊢
    · exact .inl rfl
    · exact .inr ⟨[], rfl⟩
    · exact absurd rfl h
  inside := ⟨path, if_neg h, List.nil_prefix⟩
  utf8 bytes hfile := by
    change bareNode manifest path = _ at hfile
    unfold bareNode at hfile
    split_ifs at hfile with hdirectory hmanifest
    · cases hfile
    · rw [hmanifest.2]
      decide

theorem bare_size (manifest : Bool) (start : RelPath) : (bareTree manifest).size [] start ≤ 4 := by
  have hsubset : (bareTree manifest).walked [] start ⊆
      ([[], [sourceName], [sourceName, rawName], [manifestName]] : List RelPath).toFinset := by
    rintro path ⟨-, -, hnode⟩
    rw [List.coe_toFinset]
    exact bareNode_ne_none hnode
  refine (Set.ncard_le_ncard hsubset (Finset.finite_toSet _)).trans ?_
  rw [Set.ncard_coe_finset]
  exact List.toFinset_card_le _

theorem bare_content (manifest : Bool) (path : AbsPath) :
    (bareTree manifest).content path = [] := by
  unfold FileSystemTree.content bareTree
  dsimp only
  unfold bareNode
  split_ifs <;> rfl

theorem bare_capturable : Capturable (bareTree true) [] [sourceName] .unbounded where
  manifest := by decide
  source := .inr (by decide)
  admissible path hpath := bare_admissible (hpath.elim (·.2.2) (·.2.2))
  entries := by
    have hsource := bare_size true [sourceName]
    have hmanifest := bare_size true [manifestName]
    show _ ≤ 2 ^ 64 - 1
    omega
  file_bytes path _ := by
    rw [bare_content]
    exact Nat.zero_le _
  total_bytes := by
    simp only [bare_content, List.length_nil, finsum_zero]
    exact Nat.zero_le _

theorem bare_source_not_captured {path : RelPath} (hbelow : [sourceName] <+: path) :
    ¬ SourceFile (bareTree true) [] [sourceName] path bytes := by
  rintro ⟨-, -, hfile⟩
  change bareNode true path = _ at hfile
  unfold bareNode at hfile
  split_ifs at hfile with hdirectory hmanifest
  · cases hfile
  · rw [hmanifest.2] at hbelow
    exact absurd hbelow (by decide)

/-- A tree with an empty source directory is captured though a walked directory is not UTF-8, and
the mounted snapshot cannot be captured again; without a manifest nothing forbidden is walked and
yet the capture fails. -/
theorem bare_trees_refute :
    (∃ snapshot fs,
      captureSourceTree (bareTree true).reader [] [sourceName] .unbounded = .ok snapshot ∧
        snapshot.mount [] = .ok fs ∧
        (∃ path ∈ (bareTree true).walked [] [sourceName], ∃ name ∈ path,
          isUtf8 name.bytes = false) ∧
        ∀ again, captureSourceTree fs.reader [] [sourceName] .unbounded ≠ .ok again) ∧
      (∀ path, path ∈ (bareTree false).walked [] [sourceName] ∨
          path ∈ (bareTree false).walked [] [manifestName] →
        Admissible (bareTree false) [] path) ∧
      (bareTree false).size [] [sourceName] + (bareTree false).size [] [manifestName] ≤
        SourceTreeHashLimits.unbounded.entries ∧
      ∀ snapshot,
        captureSourceTree (bareTree false).reader [] [sourceName] .unbounded ≠ .ok snapshot := by
  have hmanifest : (bareTree true).node ([] ++ [manifestName]) ≠ some .directory := by decide
  have hresolve : (bareTree true).resolve [] = .ok [] := rfl
  obtain ⟨snapshot, hcapture⟩ := capture_total hresolve hmanifest bare_capturable
  obtain ⟨root, hroot, hcapturable, hholds⟩ := capture_sound hcapture
  cases hroot
  have hcaptured := manifest_captured hcapturable hmanifest
  obtain ⟨fs, hmount, hmounted⟩ := mount_of_holds hcapturable.utf8 hholds []
  refine ⟨⟨snapshot, fs, hcapture, hmount, ?_, fun again hagain => ?_⟩,
    fun path hpath => bare_admissible (hpath.elim (·.2.2) (·.2.2)), ?_, fun snapshot h => ?_⟩
  · exact ⟨[sourceName, rawName], ⟨by decide, by decide, by decide⟩, rawName, by simp, by decide⟩
  · have hsource := (hmounted.capture_sound hcaptured hagain).1.source
    obtain ⟨path, hpath, hpre⟩ := hmounted.node_ne_none.mp (hsource.resolve_left (by decide))
    exact bare_source_not_captured hpre ((sourceFile_iff hmanifest).mpr ⟨hpath, rfl⟩)
  · have hsource := bare_size false [sourceName]
    have hsize := bare_size false [manifestName]
    show _ ≤ 2 ^ 64 - 1
    omega
  · obtain ⟨root, hroot, hcapturable, -⟩ := capture_sound h
    cases hroot
    exact hcapturable.manifest (by decide)

/-- The contract at the tree with an empty source directory. -/
theorem capture_source_tree_bare :
    ∃ snapshot,
      captureSourceTree (bareTree true).reader [] [sourceName] .unbounded = .ok snapshot :=
  ((capture_source_tree (bareTree true) [] [sourceName] .unbounded id fun root hroot => by
    cases hroot
    decide).1).mpr ⟨[], rfl, bare_capturable⟩

end ProvenGraphcal.SourceTree
