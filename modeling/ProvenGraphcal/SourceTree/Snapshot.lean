import ProvenGraphcal.SourceTree.Walk

/-!
# Captured snapshots

When a capture succeeds, what its snapshot holds, and that neither depends on the order of the
directory listings. The stream fed to the hasher determines the snapshot's files.
-/

namespace ProvenGraphcal.SourceTree

open FileSystemTree (content_of_file)

variable {t : FileSystemTree} {root : AbsPath}

variable {limits : SourceTreeHashLimits}

/-- The reads succeed when each file fits its limit and all fit together. -/
theorem readFiles_eq_ok {found : List (PortableRelativePath × AbsPath)} {total total' : ℕ}
    {captured captured' : CapturedFiles}
    (hfound : ∀ file ∈ found, t.node file.2 = some (.file (t.content file.2)))
    (htotal : total ≤ limits.totalBytes) :
    readFiles t.reader limits found total captured = .ok (total', captured') ↔
      (∀ file ∈ found, (t.content file.2).length ≤ limits.fileBytes) ∧
        total + (found.map fun file => (t.content file.2).length).sum ≤ limits.totalBytes ∧
        total' = total + (found.map fun file => (t.content file.2).length).sum ∧
        captured' = (found.map fun file => (file.1, t.content file.2)).foldl
          (fun m file => m.insert file.1 file.2) captured := by
  induction found generalizing total captured with
  | nil =>
    simp only [readFiles, Except.ok.injEq, Prod.mk.injEq]
    constructor
    · rintro ⟨rfl, rfl⟩
      exact ⟨List.forall_mem_nil _, htotal, rfl, rfl⟩
    · rintro ⟨-, -, rfl, rfl⟩
      exact ⟨rfl, rfl⟩
  | cons file rest ih =>
    obtain ⟨relative, path⟩ := file
    have hnode : t.node path = some (.file (t.content path)) := hfound _ List.mem_cons_self
    have hread : ∀ limit, t.reader.readBytesBounded path limit =
        if (t.content path).length > limit then .error (.byteLimitExceeded limit)
        else .ok (t.content path) := by
      intro limit
      simp only [FileSystemTree.reader]
      rw [hnode]
    simp only [readFiles, hread, List.map_cons, List.sum_cons, List.foldl_cons,
      List.forall_mem_cons]
    by_cases hlimit : (t.content path).length > min limits.fileBytes (limits.totalBytes - total)
    · rw [if_pos hlimit]
      constructor
      · rintro ⟨⟩
      · rintro ⟨⟨hfile, -⟩, hsum, -⟩
        omega
    · rw [if_neg hlimit]
      have hnext : total + (t.content path).length ≤ limits.totalBytes := by omega
      change (if _ then _ else _) = _ ↔ _
      rw [if_neg (by omega),
        ih (fun file hfile => hfound file (List.mem_cons_of_mem _ hfile)) hnext, Nat.add_assoc]
      refine and_congr_left' ⟨fun h => ⟨by omega, h⟩, fun h => h.2⟩

/-! ## What is captured -/

/-- The paths of the captured files. -/
def FileSystemTree.captured (t : FileSystemTree) (root : AbsPath) (sourceDir : RelPath) :
    Set RelPath :=
  {path | (path ∈ t.walked root sourceDir ∨ path ∈ t.walked root [manifestName]) ∧
    ∃ bytes, t.node (root ++ path) = some (.file bytes)}

/-- When a capture below the resolved `root` succeeds. -/
structure Capturable (t : FileSystemTree) (root : AbsPath) (sourceDir : RelPath)
    (limits : SourceTreeHashLimits) : Prop where
  manifest : t.node (root ++ [manifestName]) ≠ none
  source : containsGitComponent sourceDir = true ∨ t.node (root ++ sourceDir) ≠ none
  admissible : ∀ path, path ∈ t.walked root sourceDir ∨ path ∈ t.walked root [manifestName] →
    Admissible t root path
  entries : t.size root sourceDir + t.size root [manifestName] ≤ limits.entries
  file_bytes : ∀ path ∈ t.captured root sourceDir,
    (t.content (root ++ path)).length ≤ limits.fileBytes
  total_bytes : ∑ᶠ path ∈ t.captured root sourceDir, (t.content (root ++ path)).length ≤
    limits.totalBytes

theorem Capturable.utf8 {sourceDir : RelPath} {limits : SourceTreeHashLimits}
    (h : Capturable t root sourceDir limits) :
    ∀ path ∈ t.captured root sourceDir, ∀ name ∈ path, isUtf8 name.bytes := by
  rintro path ⟨hpath, bytes, hbytes⟩
  exact (h.admissible path hpath).utf8 bytes hbytes

theorem manifest_not_git : containsGitComponent [manifestName] = false := by decide

/-- The files found by a walk from both roots. -/
structure Found (t : FileSystemTree) (root : AbsPath) (sourceDir : RelPath)
    (files : FoundFiles) : Prop where
  get?_eq : ∀ key canonical, files.get? key = some canonical ↔
    ∃ path ∈ t.captured root sourceDir, FileAt t root path key canonical

theorem Walk.found_files {sourceDir : RelPath} {entries : ℕ} {files : FoundFiles}
    (h : Walk t root [sourceDir, [manifestName]] 0 .empty entries files) :
    Found t root sourceDir files where
  get?_eq key canonical := by
    rw [h.found nofun]
    simp only [SortedMap.get?_empty, reduceCtorEq, false_or, List.mem_cons, List.not_mem_nil,
      or_false, exists_eq_or_imp, exists_eq_left]
    constructor
    · rintro (⟨path, hpath, hfile⟩ | ⟨path, hpath, hfile⟩)
      · exact ⟨path, ⟨.inl hpath, hfile.file⟩, hfile⟩
      · exact ⟨path, ⟨.inr hpath, hfile.file⟩, hfile⟩
    · rintro ⟨path, ⟨hpath, -⟩, hfile⟩
      exact hpath.imp (fun h => ⟨path, h, hfile⟩) fun h => ⟨path, h, hfile⟩

namespace Found

variable {sourceDir : RelPath} {files : FoundFiles}

section

variable (h : Found t root sourceDir files)

include h

theorem node_eq : ∀ file ∈ files.entries, t.node file.2 = some (.file (t.content file.2)) := by
  intro file hfile
  obtain ⟨path, -, hat⟩ := (h.get?_eq file.1 file.2).mp (SortedMap.get?_eq_some.mpr hfile)
  rw [content_of_file hat.content_eq]
  exact hat.content_eq

section

variable (hutf8 : ∀ path ∈ t.captured root sourceDir, ∀ name ∈ path, isUtf8 name.bytes)

include hutf8

/-- The entries of the found files and the captured paths correspond. -/
theorem bijOn :
    Set.BijOn (fun file : PortableRelativePath × AbsPath => file.1.components)
      {file | file ∈ files.entries} (t.captured root sourceDir) := by
  have hmem : ∀ file, file ∈ files.entries ↔
      ∃ path ∈ t.captured root sourceDir, FileAt t root path file.1 file.2 := fun file => by
    rw [← h.get?_eq, SortedMap.get?_eq_some]
  refine ⟨fun file hfile => ?_, fun file hfile file' hfile' heq => ?_, fun path hpath => ?_⟩
  · obtain ⟨path, hpath, hat⟩ := (hmem file).mp hfile
    show file.1.components ∈ t.captured root sourceDir
    rwa [← hat.eq_components]
  · obtain ⟨path, -, hat⟩ := (hmem file).mp hfile
    obtain ⟨path', -, hat'⟩ := (hmem file').mp hfile'
    have hpaths : path = path' := hat.eq_components.trans (heq.trans hat'.eq_components.symm)
    have hkey := hat.key_eq
    rw [hpaths, hat'.key_eq] at hkey
    have hresolve := hat.resolve_eq
    rw [hpaths, hat'.resolve_eq] at hresolve
    cases file
    cases file'
    cases hkey
    cases hresolve
    rfl
  · obtain ⟨bytes, hbytes⟩ := hpath.2
    obtain ⟨canonical, hresolve, -⟩ := t.resolve_file _ _ hbytes
    have hkey : portableRelativePath path = .ok ⟨joined path, path, hutf8 path hpath, rfl⟩ :=
      portableRelativePath_eq_ok.mpr ⟨hutf8 path hpath, rfl⟩
    have hat : FileAt t root path _ canonical := ⟨⟨bytes, hbytes⟩, hkey, hresolve⟩
    exact ⟨(_, canonical), (hmem (_, canonical)).mpr ⟨path, hpath, hat⟩,
      components_of_portable hkey⟩

theorem sum_content :
    (files.entries.map fun file => (t.content file.2).length).sum =
      ∑ᶠ path ∈ t.captured root sourceDir, (t.content (root ++ path)).length := by
  rw [← List.sum_toFinset _ files.entries_nodup, ← finsum_mem_coe_finset, List.coe_toFinset]
  refine finsum_mem_eq_of_bijOn _ (h.bijOn hutf8) fun file hfile => ?_
  obtain ⟨path, -, hat⟩ := (h.get?_eq file.1 file.2).mp (SortedMap.get?_eq_some.mpr hfile)
  rw [content_of_file hat.content_eq, ← hat.eq_components]

end

/-- Reading the files found keeps their keys. -/
theorem get?_captured {key : PortableRelativePath} {bytes : Bytes} :
    ((files.entries.map fun file => (file.1, t.content file.2)).foldl
        (fun m file => m.insert file.1 file.2) (.empty : CapturedFiles)).get? key = some bytes ↔
      ∃ path ∈ t.captured root sourceDir, portableRelativePath path = .ok key ∧
        t.content (root ++ path) = bytes := by
  have hkeys : ((files.entries.map fun file => (file.1, t.content file.2)).map Prod.fst).Nodup := by
    rw [List.map_map]
    exact files.keys_nodup
  change (SortedMap.ofList _).get? key = some bytes ↔ _
  rw [SortedMap.get?_eq_some, (SortedMap.ofList_perm hkeys).mem_iff, List.mem_map]
  constructor
  · rintro ⟨file, hfile, heq⟩
    cases heq
    obtain ⟨path, hpath, hat⟩ := (h.get?_eq file.1 file.2).mp (SortedMap.get?_eq_some.mpr hfile)
    exact ⟨path, hpath, hat.key_eq, (content_of_file hat.content_eq).symm⟩
  · rintro ⟨path, hpath, hkey, rfl⟩
    obtain ⟨content, hcontent⟩ := hpath.2
    obtain ⟨canonical, hresolve, -⟩ := t.resolve_file _ _ hcontent
    have hat : FileAt t root path key canonical := ⟨hpath.2, hkey, hresolve⟩
    have hentry := SortedMap.get?_eq_some.mp ((h.get?_eq _ _).mpr ⟨path, hpath, hat⟩)
    refine ⟨(key, canonical), hentry, ?_⟩
    rw [content_of_file hat.content_eq]

end

end Found

/-- What the snapshot of a capture below the resolved `root` holds. -/
structure Holds (t : FileSystemTree) (root : AbsPath) (sourceDir : RelPath)
    (snapshot : SourceTreeSnapshot) : Prop where
  files : ∀ key bytes, snapshot.files.get? key = some bytes ↔
    ∃ path ∈ t.captured root sourceDir, portableRelativePath path = .ok key ∧
      t.content (root ++ path) = bytes
  bytes : snapshot.bytes =
    ∑ᶠ path ∈ t.captured root sourceDir, (t.content (root ++ path)).length
  entries : snapshot.entries = t.size root sourceDir + t.size root [manifestName]

variable {path : AbsPath} {snapshot : SourceTreeSnapshot}

theorem captureSourceTree_eq_ok {sourceDir : RelPath} :
    captureSourceTree t.reader path sourceDir limits = .ok snapshot ↔
      ∃ root files, t.resolve path = .ok root ∧
        walk t.reader root limits.entries [sourceDir, [manifestName]] 0 .empty =
          .ok (snapshot.entries, files) ∧
        readFiles t.reader limits files.entries 0 .empty =
          .ok (snapshot.bytes, snapshot.files) := by
  change (Except.mapError _ (t.resolve path) >>= _) = _ ↔ _
  cases hroot : t.resolve path with
  | error source => exact ⟨nofun, nofun⟩
  | ok root =>
    change (walk t.reader root limits.entries _ _ _ >>= _) = _ ↔ _
    rw [Checked.bind_eq_ok]
    constructor
    · rintro ⟨⟨entries, files⟩, hwalk, h⟩
      obtain ⟨⟨total, captured⟩, hread, h⟩ := Checked.bind_eq_ok.mp h
      cases h
      exact ⟨root, files, rfl, hwalk, hread⟩
    · rintro ⟨root', files, hroot', hwalk, hread⟩
      cases hroot'
      exact ⟨_, hwalk, Checked.bind_eq_ok.mpr ⟨_, hread, rfl⟩⟩

/-- A captured tree was capturable, and the snapshot holds its files. -/
theorem capture_sound {sourceDir : RelPath}
    (h : captureSourceTree t.reader path sourceDir limits = .ok snapshot) :
    ∃ root, t.resolve path = .ok root ∧ Capturable t root sourceDir limits ∧
      Holds t root sourceDir snapshot := by
  obtain ⟨root, files, hroot, hwalk, hread⟩ := captureSourceTree_eq_ok.mp h
  have hvisited := walk_sound hwalk
  have hfound := hvisited.found_files
  have hadmissible : ∀ path, path ∈ t.walked root sourceDir ∨ path ∈ t.walked root [manifestName] →
      Admissible t root path := by
    rintro path (hpath | hpath)
    · exact hvisited.admissible _ (by simp) path hpath
    · exact hvisited.admissible _ (by simp) path hpath
  have hutf8 : ∀ path ∈ t.captured root sourceDir, ∀ name ∈ path, isUtf8 name.bytes := by
    rintro path ⟨hpath, bytes, hbytes⟩
    exact (hadmissible path hpath).utf8 bytes hbytes
  obtain ⟨hfiles, hsum, hbytes, hcaptured⟩ :=
    (readFiles_eq_ok hfound.node_eq (Nat.zero_le _)).mp hread
  rw [Nat.zero_add, hfound.sum_content hutf8] at hsum hbytes
  have hentries : snapshot.entries = t.size root sourceDir + t.size root [manifestName] := by
    simpa using hvisited.counted
  refine ⟨root, hroot, ⟨?_, ?_, hadmissible, ?_, fun path hpath => ?_, hsum⟩,
    fun key bytes => ?_, hbytes, hentries⟩
  · exact (hvisited.present [manifestName] (by simp)).resolve_left (by decide)
  · exact hvisited.present sourceDir (by simp)
  · rw [← hentries]
    exact walk_le hwalk (Nat.zero_le _)
  · obtain ⟨file, hfile, rfl⟩ := (hfound.bijOn hutf8).surjOn hpath
    obtain ⟨path, -, hat⟩ := (hfound.get?_eq file.1 file.2).mp (SortedMap.get?_eq_some.mpr hfile)
    show (t.content (root ++ file.1.components)).length ≤ limits.fileBytes
    rw [← hat.eq_components, ← content_of_file hat.content_eq]
    exact hfiles file hfile
  · rw [hcaptured, hfound.get?_captured]

/-- A capturable tree whose manifest is no directory is captured. -/
theorem capture_total {sourceDir : RelPath} (hroot : t.resolve path = .ok root)
    (hmanifest : t.node (root ++ [manifestName]) ≠ some .directory)
    (h : Capturable t root sourceDir limits) :
    ∃ snapshot, captureSourceTree t.reader path sourceDir limits = .ok snapshot := by
  have hwalkable : Walkable t root [sourceDir, [manifestName]] := by
    refine ⟨?_, ?_⟩
    · simp only [List.forall_mem_cons, List.not_mem_nil, false_implies, implies_true, and_true]
      exact ⟨h.source, .inr h.manifest⟩
    · simp only [List.forall_mem_cons, List.not_mem_nil, false_implies, implies_true, and_true]
      exact ⟨fun path hpath => h.admissible path (.inl hpath),
        fun path hpath => h.admissible path (.inr hpath)⟩
  have hentries : 0 + ([sourceDir, [manifestName]].map (t.size root)).sum ≤ limits.entries := by
    simpa using h.entries
  obtain ⟨⟨entries, files⟩, hwalk⟩ := walk_total .empty
    (show [sourceDir, [manifestName]] = [sourceDir] ++ [[manifestName]] from rfl)
    manifest_not_git hmanifest hwalkable hentries
  have hfound := (walk_sound hwalk).found_files
  have hfiles : ∀ file ∈ files.entries, (t.content file.2).length ≤ limits.fileBytes := by
    intro file hfile
    obtain ⟨path, hpath, hat⟩ :=
      (hfound.get?_eq file.1 file.2).mp (SortedMap.get?_eq_some.mpr hfile)
    rw [content_of_file hat.content_eq]
    exact h.file_bytes path hpath
  have hsum : 0 + (files.entries.map fun file => (t.content file.2).length).sum ≤
      limits.totalBytes := by
    rw [Nat.zero_add, hfound.sum_content h.utf8]
    exact h.total_bytes
  obtain ⟨total, captured, hread⟩ : ∃ total captured,
      readFiles t.reader limits files.entries 0 .empty = .ok (total, captured) :=
    ⟨_, _, (readFiles_eq_ok hfound.node_eq (Nat.zero_le _)).mpr ⟨hfiles, hsum, rfl, rfl⟩⟩
  exact ⟨⟨captured, total, entries⟩,
    captureSourceTree_eq_ok.mpr ⟨root, files, hroot, hwalk, hread⟩⟩

/-- Two trees that differ at most in the order in which they list children. -/
structure SameUpToOrder (t t' : FileSystemTree) : Prop where
  node : t.node = t'.node
  resolve : t.resolve = t'.resolve
  listing : ∀ path, (t.listing path).Perm (t'.listing path)

theorem bind_sorted {x y : Except FileSystemReadError (List Name)}
    (h : x.map sortNames = y.map sortNames) (f : FileSystemReadError → SourceTreeHashError)
    (g : List Name → Inspected) :
    (do let names ← x.mapError f; return g (sortNames names)) =
      (do let names ← y.mapError f; return g (sortNames names)) := by
  cases x with
  | error e =>
    cases y with
    | error e' =>
      cases h
      rfl
    | ok names => cases h
  | ok names =>
    cases y with
    | error e => cases h
    | ok names' =>
      show Except.ok (g (sortNames names)) = Except.ok (g (sortNames names'))
      rw [Except.ok.inj h]

variable {t' : FileSystemTree}

section

variable (h : SameUpToOrder t t')

include h

theorem inspectEntry_congr (remaining : ℕ) (relative : RelPath) :
    inspectEntry t.reader root remaining relative =
      inspectEntry t'.reader root remaining relative := by
  have hkind : t.reader.entryKind = t'.reader.entryKind := by
    funext path
    simp only [FileSystemTree.reader, h.node]
  have hinside : ∀ path, canonicalInside t.reader path root = canonicalInside t'.reader path root :=
    fun path => by simp only [canonicalInside, FileSystemTree.reader, h.resolve]
  have hlisting : ∀ path, (t.reader.readDirectoryBounded path remaining).map sortNames =
      (t'.reader.readDirectoryBounded path remaining).map sortNames := by
    intro path
    simp only [FileSystemTree.reader, h.node, (h.listing path).length_eq]
    cases t'.node path with
    | none => rfl
    | some node =>
      cases node with
      | directory =>
        show Except.map sortNames (if _ then _ else _) = Except.map sortNames (if _ then _ else _)
        split_ifs
        · rfl
        · exact congrArg Except.ok (sortNames_congr (h.listing path))
      | _ => rfl
  simp only [inspectEntry, hkind, hinside]
  cases t'.reader.entryKind (root ++ relative) with
  | error source => rfl
  | ok kind =>
    cases kind with
    | directory =>
      refine bind_congr fun canonical => ?_
      exact bind_sorted (hlisting canonical) (mapDirectoryError canonical)
        fun names => .directory (names.map fun child => relative ++ [child])
    | _ => rfl

theorem walk_congr (limit : ℕ) (pending : List RelPath) (entries : ℕ) (files : FoundFiles) :
    walk t.reader root limit pending entries files =
      walk t'.reader root limit pending entries files := by
  fun_induction walk t.reader root limit pending entries files with
  | case1 entries files => rw [walk]
  | case2 relative pending entries files hgit ih => rw [ih, eq_comm, walk, if_pos hgit]
  | case3 relative pending entries files hgit hlimit error hinspect =>
    rw [inspectEntry_congr h] at hinspect
    rw [walk, if_neg hgit, dif_pos hlimit, hinspect]
  | case4 relative pending entries files hgit hlimit key canonical hinspect ih =>
    rw [inspectEntry_congr h] at hinspect
    rw [ih, eq_comm, walk, if_neg hgit, dif_pos hlimit, hinspect]
  | case5 relative pending entries files hgit hlimit children hinspect ih =>
    rw [inspectEntry_congr h] at hinspect
    rw [ih, eq_comm, walk, if_neg hgit, dif_pos hlimit, hinspect]
  | case6 relative pending entries files hgit hlimit => rw [walk, if_neg hgit, dif_neg hlimit]

theorem readFiles_congr (limits : SourceTreeHashLimits)
    (found : List (PortableRelativePath × AbsPath)) (total : ℕ) (captured : CapturedFiles) :
    readFiles t.reader limits found total captured =
      readFiles t'.reader limits found total captured := by
  have hread : t.reader.readBytesBounded = t'.reader.readBytesBounded := by
    funext path limit
    simp only [FileSystemTree.reader, h.node]
  induction found generalizing total captured with
  | nil => rfl
  | cons file rest ih => simp only [readFiles, hread, ih]

/-- The order of the listings changes nothing, neither in the result nor in the error. -/
theorem captureSourceTree_congr (path : AbsPath) (sourceDir : RelPath)
    (limits : SourceTreeHashLimits) :
    captureSourceTree t.reader path sourceDir limits =
      captureSourceTree t'.reader path sourceDir limits := by
  have hresolve : t.reader.canonicalize = t'.reader.canonicalize := h.resolve
  simp only [captureSourceTree, hresolve, walk_congr h, readFiles_congr h]

end

theorem digit_range {n : ℕ} {digit : Char} (h : digit ∈ Nat.toDigits 10 n) :
    48 ≤ digit.toNat ∧ digit.toNat ≤ 57 := by
  have hdigit := Nat.isDigit_of_mem_toDigits (b := 10) (by decide) le_rfl h
  rw [Char.isDigit, Bool.and_eq_true, decide_eq_true_eq, decide_eq_true_eq] at hdigit
  exact hdigit

theorem decimal_injective : Function.Injective decimal := by
  have hread : ∀ n, (decimal n).map (fun byte => Char.ofNat byte.toNat) = Nat.toDigits 10 n := by
    intro n
    rw [decimal, List.map_map]
    refine (List.map_congr_left fun digit hdigit => ?_).trans (List.map_id _)
    have hrange := digit_range hdigit
    show Char.ofNat (UInt8.ofNat digit.toNat).toNat = digit
    rw [UInt8.toNat_ofNat', Nat.mod_eq_of_lt (by omega), Char.ofNat_toNat]
  intro n n' h
  have hdigits : Nat.toDigits 10 n = Nat.toDigits 10 n' := by rw [← hread, h, hread]
  rw [← Nat.ofDigitChars_ten_toDigits (n := n), hdigits, Nat.ofDigitChars_ten_toDigits]

theorem zero_not_mem_decimal (n : ℕ) : 0 ∉ decimal n := by
  intro h
  obtain ⟨digit, hdigit, hzero⟩ := List.mem_map.mp h
  have hrange := digit_range hdigit
  have hnat := congrArg UInt8.toNat hzero
  rw [UInt8.toNat_ofNat', Nat.mod_eq_of_lt (by omega)] at hnat
  change digit.toNat = 0 at hnat
  omega

/-- What stands before a first NUL is determined. -/
theorem append_zero_inj {a b rest rest' : Bytes} (ha : 0 ∉ a) (hb : 0 ∉ b)
    (h : a ++ 0 :: rest = b ++ 0 :: rest') : a = b ∧ rest = rest' := by
  induction a generalizing b with
  | nil =>
    cases b with
    | nil => exact ⟨rfl, (List.cons.inj h).2⟩
    | cons byte b =>
      obtain ⟨rfl, -⟩ := List.cons.inj h
      exact absurd List.mem_cons_self hb
  | cons byte a ih =>
    cases b with
    | nil =>
      obtain ⟨rfl, -⟩ := List.cons.inj h
      exact absurd List.mem_cons_self ha
    | cons byte' b =>
      obtain ⟨rfl, htail⟩ := List.cons.inj h
      obtain ⟨rfl, hrest⟩ := ih (fun hmem => ha (List.mem_cons_of_mem _ hmem))
        (fun hmem => hb (List.mem_cons_of_mem _ hmem)) htail
      exact ⟨rfl, hrest⟩

theorem frame_append_inj {file file' : PortableRelativePath × Bytes} {rest rest' : Bytes}
    (hfile : 0 ∉ file.1.bytes) (hfile' : 0 ∉ file'.1.bytes)
    (h : frame file ++ rest = frame file' ++ rest') : file = file' ∧ rest = rest' := by
  obtain ⟨key, content⟩ := file
  obtain ⟨key', content'⟩ := file'
  simp only [frame, List.append_assoc, List.singleton_append] at h
  obtain ⟨hkey, hafter⟩ := append_zero_inj hfile hfile' h
  obtain ⟨hlength, hframed⟩ :=
    append_zero_inj (zero_not_mem_decimal _) (zero_not_mem_decimal _) hafter
  obtain ⟨rfl, hrest⟩ := List.append_inj hframed (decimal_injective hlength)
  refine ⟨?_, (List.cons.inj hrest).2⟩
  cases key
  cases key'
  cases hkey
  rfl

theorem flatMap_frame_inj {files files' : List (PortableRelativePath × Bytes)}
    (hfiles : ∀ file ∈ files, 0 ∉ file.1.bytes) (hfiles' : ∀ file ∈ files', 0 ∉ file.1.bytes)
    (h : files.flatMap frame = files'.flatMap frame) : files = files' := by
  have hnonempty : ∀ file : PortableRelativePath × Bytes, frame file ≠ [] := fun file => by
    simp [frame]
  induction files generalizing files' with
  | nil =>
    cases files' with
    | nil => rfl
    | cons file rest =>
      rw [List.flatMap_nil, List.flatMap_cons, eq_comm, List.append_eq_nil_iff] at h
      exact absurd h.1 (hnonempty file)
  | cons file rest ih =>
    cases files' with
    | nil =>
      rw [List.flatMap_nil, List.flatMap_cons, List.append_eq_nil_iff] at h
      exact absurd h.1 (hnonempty file)
    | cons file' rest' =>
      rw [List.flatMap_cons, List.flatMap_cons] at h
      rw [List.forall_mem_cons] at hfiles hfiles'
      obtain ⟨rfl, htail⟩ := frame_append_inj hfiles.1 hfiles'.1 h
      rw [ih hfiles.2 hfiles'.2 htail]

/-- No path of the snapshot contains a NUL. -/
def SourceTreeSnapshot.NulFree (snapshot : SourceTreeSnapshot) : Prop :=
  ∀ file ∈ snapshot.files.entries, 0 ∉ file.1.bytes

/-- The stream determines the paths and contents. -/
theorem stream_injective {snapshot' : SourceTreeSnapshot} (h : snapshot.NulFree)
    (h' : snapshot'.NulFree) (hstream : snapshot.stream = snapshot'.stream) :
    snapshot.files = snapshot'.files :=
  SortedMap.ext_perm (List.Perm.of_eq (flatMap_frame_inj h h' hstream))

end ProvenGraphcal.SourceTree
