import Mathlib.Algebra.BigOperators.Finprod
import Mathlib.Data.Set.Card
import Mathlib.Order.CompletePartialOrder
import ProvenGraphcal.Library.Checked
import ProvenGraphcal.SourceTree.Capture

/-!
# What a capture of a finite tree holds

A finite filesystem tree with its reader, the entries walked from a root, and the walk of the
capture: it visits exactly these, once for each pending root above them.
-/

namespace ProvenGraphcal.SourceTree

open List (append_assoc append_nil cons_eq_append_iff forall_mem_append forall_mem_cons map_append
  map_cons mem_cons mem_cons_self mem_map prefix_rfl sum_append sum_cons)

theorem component_bytes (name : Name) : component name.bytes = some name :=
  dif_pos ⟨name.nonempty, name.no_separator, name.not_current, name.not_parent⟩

/-- The pieces of a joined path are its components. -/
theorem filterMap_component_joined (path : RelPath) :
    ((joined path).splitOn separator).filterMap component = path := by
  by_cases hpath : path = []
  · subst hpath
    rfl
  · have hpieces : ∀ piece ∈ path.map Name.bytes, separator ∉ piece := by
      intro piece hpiece
      obtain ⟨name, -, rfl⟩ := mem_map.mp hpiece
      exact name.no_separator
    rw [joined, List.splitOn_intercalate _ hpieces (by simpa using hpath), List.filterMap_map]
    rw [show component ∘ Name.bytes = some from funext component_bytes, List.filterMap_some]

variable {key : PortableRelativePath} {path : RelPath}

theorem portableRelativePath_eq_ok :
    portableRelativePath path = .ok key ↔
      (∀ name ∈ path, isUtf8 name.bytes) ∧ key.bytes = joined path := by
  unfold portableRelativePath
  split_ifs with h
  · constructor
    · intro hkey
      cases hkey
      exact ⟨h, rfl⟩
    · rintro ⟨-, hkey⟩
      cases key
      cases hkey
      rfl
  · exact ⟨nofun, fun hkey => absurd hkey.1 h⟩

theorem components_of_portable (h : portableRelativePath path = .ok key) :
    key.components = path := by
  rw [PortableRelativePath.components, (portableRelativePath_eq_ok.mp h).2]
  exact filterMap_component_joined path

theorem containsGitComponent_append (path path' : RelPath) :
    containsGitComponent (path ++ path') =
      (containsGitComponent path || containsGitComponent path') := List.any_append

theorem containsGitComponent_single (name : Name) :
    containsGitComponent [name] = decide (name = gitName) := by
  rw [containsGitComponent, List.any_cons, List.any_nil, Bool.or_false, beq_eq_decide]

theorem sortNames_perm (names : List Name) : (sortNames names).Perm names :=
  List.perm_insertionSort _ names

/-- Sorting forgets the order of a listing. -/
theorem sortNames_congr {names names' : List Name} (h : names.Perm names') :
    sortNames names = sortNames names' := by
  refine List.Perm.eq_of_pairwise (fun a b _ _ hab hba => le_antisymm hab hba)
    (List.pairwise_insertionSort (· ≤ ·) names) (List.pairwise_insertionSort (· ≤ ·) names') ?_
  exact (sortNames_perm names).trans (h.trans (sortNames_perm names').symm)

/-! ## Finite trees -/

inductive Node
  | file (bytes : Bytes)
  | directory
  | symlink
  | other
deriving DecidableEq

def Node.kind : Node → FileSystemEntryKind
  | .file _ => .file
  | .directory => .directory
  | .symlink => .symlink
  | .other => .other

/-- A finite filesystem tree: the entry at each path, the order in which a directory lists its
children, and the path to which a path resolves. -/
structure FileSystemTree where
  node : AbsPath → Option Node
  listing : AbsPath → List Name
  resolve : AbsPath → Except IoErrorKind AbsPath
  finite : {path | node path ≠ none}.Finite
  parent : ∀ path name, node (path ++ [name]) ≠ none → node path = some .directory
  listing_nodup : ∀ path, (listing path).Nodup
  mem_listing : ∀ path name, node path = some .directory →
    (name ∈ listing path ↔ node (path ++ [name]) ≠ none)
  resolve_file : ∀ path bytes, node path = some (.file bytes) →
    ∃ canonical, resolve path = .ok canonical ∧ node canonical = some (.file bytes)
  resolve_directory : ∀ path, node path = some .directory →
    ∃ canonical, resolve path = .ok canonical ∧ node canonical = some .directory ∧
      ∀ name, name ∈ listing canonical ↔ name ∈ listing path

variable {bytes : Bytes} {start : RelPath}

namespace FileSystemTree

/-- Reading the tree: links are not followed, and reads are bounded. -/
def reader (t : FileSystemTree) : FileSystemReader where
  readBytesBounded path limit :=
    match t.node path with
    | some (.file bytes) =>
      if bytes.length > limit then .error (.byteLimitExceeded limit) else .ok bytes
    | _ => .error (.io .notFound)
  canonicalize := t.resolve
  entryKind path :=
    match t.node path with
    | none => .error .notFound
    | some node => .ok node.kind
  readDirectoryBounded path limit :=
    match t.node path with
    | none => .error (.io .notFound)
    | some .directory =>
      if (t.listing path).length > limit then .error (.entryLimitExceeded limit)
      else .ok (t.listing path)
    | some _ => .error (.io .notADirectory)

/-- The entries walked from `start`: those at or below it without a `.git` component. -/
def walked (t : FileSystemTree) (root : AbsPath) (start : RelPath) : Set RelPath :=
  {path | start <+: path ∧ containsGitComponent path = false ∧ t.node (root ++ path) ≠ none}

noncomputable def size (t : FileSystemTree) (root : AbsPath) (start : RelPath) : ℕ :=
  (t.walked root start).ncard

/-- The content of a file. -/
def content (t : FileSystemTree) (path : AbsPath) : Bytes :=
  match t.node path with
  | some (.file bytes) => bytes
  | _ => []

/-- The children of a directory as they are pushed. -/
def children (t : FileSystemTree) (root : AbsPath) (relative : RelPath) : List RelPath :=
  (sortNames (t.listing (root ++ relative))).map fun child => relative ++ [child]

variable {t : FileSystemTree} {root : AbsPath}

theorem content_of_file {path : AbsPath} (h : t.node path = some (.file bytes)) :
    t.content path = bytes := by
  rw [content, h]

/-- What has an entry below it is a directory. -/
theorem node_append {path below : AbsPath} (hbelow : below ≠ [])
    (h : t.node (path ++ below) ≠ none) : t.node path = some .directory := by
  induction below using List.reverseRecOn with
  | nil => exact absurd rfl hbelow
  | append_singleton below name ih =>
    rw [← append_assoc] at h
    have hparent := t.parent _ _ h
    by_cases hnil : below = []
    · rwa [hnil, append_nil] at hparent
    · exact ih hnil (by rw [hparent]; exact nofun)

theorem node_ne_none_of_isPrefix {path' : RelPath} (hpre : path <+: path')
    (h : t.node (root ++ path') ≠ none) : t.node (root ++ path) ≠ none := by
  obtain ⟨below, rfl⟩ := hpre
  by_cases hbelow : below = []
  · rwa [hbelow, append_nil] at h
  · rw [← append_assoc] at h
    rw [node_append hbelow h]
    exact nofun

theorem walked_finite (t : FileSystemTree) (root : AbsPath) (start : RelPath) :
    (t.walked root start).Finite := by
  refine Set.Finite.subset (t.finite.preimage (f := (root ++ ·)) ?_) fun path h => h.2.2
  exact fun a _ b _ hab => List.append_cancel_left hab

theorem walked_git (h : containsGitComponent start = true) :
    t.walked root start = ∅ := by
  refine Set.eq_empty_of_forall_notMem fun path hpath => ?_
  obtain ⟨⟨below, rfl⟩, hgit, -⟩ := hpath
  rw [containsGitComponent_append, h] at hgit
  cases hgit

/-- From an entry that is no directory, only itself is walked. -/
theorem walked_leaf (hgit : containsGitComponent start = false)
    (hnode : t.node (root ++ start) ≠ none) (hleaf : t.node (root ++ start) ≠ some .directory) :
    t.walked root start = {start} := by
  ext path
  rw [Set.mem_singleton_iff]
  constructor
  · rintro ⟨⟨below, rfl⟩, -, hpath⟩
    by_contra hbelow
    rw [← append_assoc] at hpath
    exact hleaf (node_append (by simpa using hbelow) hpath)
  · rintro rfl
    exact ⟨prefix_rfl, hgit, hnode⟩

/-- From a directory, itself and what is walked from its children. -/
theorem walked_directory (hgit : containsGitComponent start = false)
    (hnode : t.node (root ++ start) = some .directory) :
    t.walked root start =
      insert start {path | ∃ child ∈ t.children root start, path ∈ t.walked root child} := by
  ext path
  rw [Set.mem_insert_iff, Set.mem_ofPred_eq]
  constructor
  · rintro ⟨⟨below, rfl⟩, hpath⟩
    cases below with
    | nil => exact .inl (append_nil start)
    | cons name below =>
      have hpre : start ++ [name] <+: start ++ name :: below := ⟨below, by simp⟩
      have hchild := node_ne_none_of_isPrefix hpre hpath.2
      rw [← append_assoc, ← t.mem_listing _ _ hnode] at hchild
      refine .inr ⟨start ++ [name], ?_, hpre, hpath⟩
      exact List.mem_map_of_mem ((sortNames_perm _).mem_iff.mpr hchild)
  · rintro (rfl | ⟨child, hchild, hpre, hpath⟩)
    · exact ⟨prefix_rfl, hgit, by rw [hnode]; exact nofun⟩
    · obtain ⟨name, -, rfl⟩ := mem_map.mp hchild
      exact ⟨(List.prefix_append start [name]).trans hpre, hpath⟩

theorem children_disjoint (t : FileSystemTree) (root : AbsPath) (start : RelPath) :
    (t.children root start).Pairwise fun a b =>
      Disjoint (t.walked root a) (t.walked root b) := by
  have hnodup : (sortNames (t.listing (root ++ start))).Nodup :=
    (sortNames_perm _).nodup_iff.mpr (t.listing_nodup _)
  refine List.pairwise_map.mpr (hnodup.imp fun {a b} hne => ?_)
  refine Set.disjoint_left.mpr fun path ha hb => hne ?_
  have heq : start ++ [a] = start ++ [b] :=
    List.IsPrefix.eq_of_length_le
      (List.prefix_of_prefix_length_le ha.1 hb.1 (by simp)) (by simp)
  simpa using heq

/-- Sizes of disjoint walks add up. -/
theorem ncard_walked {starts : List RelPath}
    (h : starts.Pairwise fun a b => Disjoint (t.walked root a) (t.walked root b)) :
    {path | ∃ start ∈ starts, path ∈ t.walked root start}.ncard =
      (starts.map (t.size root)).sum := by
  have hfinite : ∀ l : List RelPath,
      {path | ∃ start ∈ l, path ∈ t.walked root start}.Finite := fun l =>
    Set.Finite.subset (l.finite_toSet.biUnion fun start _ => t.walked_finite root start)
      fun path ⟨start, hstart, hpath⟩ => Set.mem_biUnion hstart hpath
  induction starts with
  | nil => simp
  | cons start rest ih =>
    rw [List.pairwise_cons] at h
    have hunion : {path | ∃ s ∈ start :: rest, path ∈ t.walked root s} =
        t.walked root start ∪ {path | ∃ s ∈ rest, path ∈ t.walked root s} := by
      ext path
      simp
    have hdisjoint : Disjoint (t.walked root start)
        {path | ∃ s ∈ rest, path ∈ t.walked root s} := by
      refine Set.disjoint_left.mpr fun path hpath ⟨s, hs, hpath'⟩ => ?_
      exact Set.disjoint_left.mp (h.1 s hs) hpath hpath'
    rw [hunion, Set.ncard_union_eq hdisjoint (t.walked_finite root start) (hfinite rest),
      ih h.2, map_cons, sum_cons, size]

theorem size_git (h : containsGitComponent start = true) :
    t.size root start = 0 := by
  rw [size, walked_git h, Set.ncard_empty]

section

variable (hgit : containsGitComponent start = false)

include hgit

theorem size_leaf (hnode : t.node (root ++ start) ≠ none)
    (hleaf : t.node (root ++ start) ≠ some .directory) : t.size root start = 1 := by
  rw [size, walked_leaf hgit hnode hleaf, Set.ncard_singleton]

theorem size_directory (hnode : t.node (root ++ start) = some .directory) :
    t.size root start = ((t.children root start).map (t.size root)).sum + 1 := by
  have hnot : start ∉ {path | ∃ child ∈ t.children root start, path ∈ t.walked root child} := by
    rintro ⟨child, hchild, hpre, -⟩
    obtain ⟨name, -, rfl⟩ := mem_map.mp hchild
    have hlength := hpre.length_le
    simp at hlength
  have hfinite := t.walked_finite root start
  rw [walked_directory hgit hnode] at hfinite
  rw [size, walked_directory hgit hnode,
    Set.ncard_insert_of_notMem hnot (hfinite.subset (Set.subset_insert _ _)),
    ncard_walked (t.children_disjoint root start)]

theorem size_pos (hnode : t.node (root ++ start) ≠ none) : 0 < t.size root start :=
  (Set.ncard_pos (t.walked_finite root start)).mpr ⟨start, prefix_rfl, hgit, hnode⟩

/-- Every child but `.git` is walked. -/
theorem length_listing_le (hnode : t.node (root ++ start) = some .directory) :
    (t.listing (root ++ start)).length ≤
      ((t.children root start).map (t.size root)).sum + 1 := by
  have hlength : (t.listing (root ++ start)).length =
      (sortNames (t.listing (root ++ start))).length := (sortNames_perm _).length_eq.symm
  have hnodup : (sortNames (t.listing (root ++ start))).Nodup :=
    (sortNames_perm _).nodup_iff.mpr (t.listing_nodup _)
  have hmem : ∀ name ∈ sortNames (t.listing (root ++ start)),
      t.node (root ++ (start ++ [name])) ≠ none := by
    intro name hname
    rw [← append_assoc, ← t.mem_listing _ _ hnode]
    exact (sortNames_perm _).mem_iff.mp hname
  rw [hlength, children]
  generalize sortNames (t.listing (root ++ start)) = names at hnodup hmem
  -- at most one child is `.git`, and every other one has at least itself to walk
  have hcount : names.count gitName ≤ 1 := List.nodup_iff_count_le_one.mp hnodup gitName
  have hsum : names.length ≤ ((names.map fun name => start ++ [name]).map (t.size root)).sum +
      names.count gitName := by
    clear hcount hnodup
    induction names with
    | nil => simp
    | cons name rest ih =>
      have hrest := ih fun n hn => hmem n (List.mem_cons_of_mem _ hn)
      rw [List.length_cons, map_cons, map_cons, sum_cons, List.count_cons]
      by_cases hname : name = gitName
      · simp only [hname, beq_self_eq_true, if_true]
        omega
      · have hpos : 0 < t.size root (start ++ [name]) := by
          refine size_pos ?_ (hmem name mem_cons_self)
          rw [containsGitComponent_append, hgit, containsGitComponent_single]
          simp [hname]
        omega
  omega

end

end FileSystemTree

/-- What the walk asks of an entry: a regular file with a UTF-8 path or a directory, which resolves
inside the root. -/
structure Admissible (t : FileSystemTree) (root : AbsPath) (relative : RelPath) : Prop where
  plain : t.node (root ++ relative) = some .directory ∨
    ∃ bytes, t.node (root ++ relative) = some (.file bytes)
  inside : ∃ canonical, t.resolve (root ++ relative) = .ok canonical ∧ root <+: canonical
  utf8 : ∀ bytes, t.node (root ++ relative) = some (.file bytes) →
    ∀ name ∈ relative, isUtf8 name.bytes

/-- The walk records the file at `relative` under `key`, with the path it resolves to. -/
structure FileAt (t : FileSystemTree) (root : AbsPath) (relative : RelPath)
    (key : PortableRelativePath) (canonical : AbsPath) : Prop where
  file : ∃ bytes, t.node (root ++ relative) = some (.file bytes)
  key_eq : portableRelativePath relative = .ok key
  resolve_eq : t.resolve (root ++ relative) = .ok canonical

variable {t : FileSystemTree} {root : AbsPath}
variable {canonical : AbsPath} {relative : RelPath}

section

variable (h : FileAt t root relative key canonical)

include h

theorem FileAt.eq_components : relative = key.components :=
  (components_of_portable h.key_eq).symm

theorem FileAt.canonical_eq {relative' : RelPath} {canonical' : AbsPath}
    (h' : FileAt t root relative' key canonical') : canonical = canonical' := by
  have hrelative : relative = relative' := h.eq_components.trans h'.eq_components.symm
  have hresolve := h.resolve_eq
  rw [hrelative, h'.resolve_eq] at hresolve
  cases hresolve
  rfl

theorem FileAt.content_eq : t.node canonical = some (.file (t.content (root ++ relative))) := by
  obtain ⟨bytes, hbytes⟩ := h.file
  obtain ⟨canonical', hresolve, hnode⟩ := t.resolve_file _ _ hbytes
  rw [h.resolve_eq] at hresolve
  cases hresolve
  rw [hnode, FileSystemTree.content_of_file hbytes]

end

theorem canonicalInside_eq_ok {path : AbsPath} :
    canonicalInside t.reader path root = .ok canonical ↔
      t.resolve path = .ok canonical ∧ root <+: canonical := by
  change (Except.mapError _ (t.resolve path) >>= _) = _ ↔ _
  cases hresolve : t.resolve path with
  | error source => exact ⟨nofun, nofun⟩
  | ok resolved =>
    change (if root.isPrefixOf resolved then _ else _) = _ ↔ _
    rw [← List.isPrefixOf_iff_prefix]
    split_ifs with hpre
    · constructor
      · intro h
        cases h
        exact ⟨rfl, hpre⟩
      · rintro ⟨h, -⟩
        cases h
        rfl
    · refine ⟨nofun, fun ⟨h, hinside⟩ => ?_⟩
      cases h
      exact absurd hinside hpre

variable {entry : Inspected} {remaining : ℕ}

theorem inspectEntry_file (hnode : t.node (root ++ relative) = some (.file bytes)) :
    inspectEntry t.reader root remaining relative = .ok entry ↔
      Admissible t root relative ∧
        ∃ key canonical, FileAt t root relative key canonical ∧ entry = .file key canonical := by
  have hkind : t.reader.entryKind (root ++ relative) = .ok .file := by
    simp only [FileSystemTree.reader, hnode]
    rfl
  unfold inspectEntry
  simp only [hkind]
  constructor
  · intro h
    obtain ⟨canonical, hcanonical, h⟩ := Checked.bind_eq_ok.mp h
    obtain ⟨key, hkey, rfl⟩ := Checked.bind_pure_eq_ok.mp h
    have hinside := canonicalInside_eq_ok.mp hcanonical
    exact ⟨⟨.inr ⟨bytes, hnode⟩, ⟨canonical, hinside⟩,
      fun _ _ => (portableRelativePath_eq_ok.mp hkey).1⟩, key, canonical,
      ⟨⟨bytes, hnode⟩, hkey, hinside.1⟩, rfl⟩
  · rintro ⟨hadmissible, key, canonical, hfile, rfl⟩
    obtain ⟨resolved, hresolve, hinside⟩ := hadmissible.inside
    rw [hfile.resolve_eq] at hresolve
    cases hresolve
    rw [canonicalInside_eq_ok.mpr ⟨hfile.resolve_eq, hinside⟩, hfile.key_eq]
    rfl

theorem inspectEntry_directory (hnode : t.node (root ++ relative) = some .directory) :
    inspectEntry t.reader root remaining relative = .ok entry ↔
      Admissible t root relative ∧ (t.listing (root ++ relative)).length ≤ remaining ∧
        entry = .directory (t.children root relative) := by
  obtain ⟨canonical, hresolve, hcanonical, hmem⟩ := t.resolve_directory _ hnode
  have hperm : (t.listing canonical).Perm (t.listing (root ++ relative)) :=
    (List.perm_ext_iff_of_nodup (t.listing_nodup _) (t.listing_nodup _)).mpr hmem
  have hkind : t.reader.entryKind (root ++ relative) = .ok .directory := by
    simp only [FileSystemTree.reader, hnode]
    rfl
  have hread : t.reader.readDirectoryBounded canonical remaining =
      if (t.listing canonical).length > remaining then .error (.entryLimitExceeded remaining)
      else .ok (t.listing canonical) := by
    simp only [FileSystemTree.reader, hcanonical]
  have hchildren : (sortNames (t.listing canonical)).map (fun child => relative ++ [child]) =
      t.children root relative := by
    rw [sortNames_congr hperm]
    rfl
  unfold inspectEntry
  simp only [hkind]
  constructor
  · intro h
    obtain ⟨resolved, hresolved, h⟩ := Checked.bind_eq_ok.mp h
    have hinside := canonicalInside_eq_ok.mp hresolved
    rw [hresolve] at hinside
    obtain ⟨rfl⟩ := hinside.1
    rw [hread, hperm.length_eq] at h
    split_ifs at h with hlimit
    · cases h
    · cases h
      refine ⟨⟨.inl hnode, ⟨_, hresolve, hinside.2⟩, ?_⟩, by omega, congrArg _ hchildren⟩
      intro bytes hbytes
      rw [hnode] at hbytes
      cases hbytes
  · rintro ⟨hadmissible, hlimit, rfl⟩
    obtain ⟨resolved, hresolved, hinside⟩ := hadmissible.inside
    rw [hresolve] at hresolved
    cases hresolved
    rw [canonicalInside_eq_ok.mpr ⟨hresolve, hinside⟩]
    change (Except.mapError _ (t.reader.readDirectoryBounded canonical remaining) >>= _) = _
    rw [hread, hperm.length_eq, if_neg (by omega), ← hchildren]
    rfl

/-- An entry the walk goes past is admissible. -/
theorem admissible_of_inspectEntry (h : inspectEntry t.reader root remaining relative = .ok entry) :
    Admissible t root relative := by
  cases hnode : t.node (root ++ relative) with
  | none =>
    simp [inspectEntry, FileSystemTree.reader, hnode] at h
  | some node =>
    cases node with
    | file bytes => exact ((inspectEntry_file hnode).mp h).1
    | directory => exact ((inspectEntry_directory hnode).mp h).1
    | symlink => simp [inspectEntry, FileSystemTree.reader, hnode, Node.kind] at h
    | other => simp [inspectEntry, FileSystemTree.reader, hnode, Node.kind] at h

theorem inspectEntry_eq_file
    (h : inspectEntry t.reader root remaining relative = .ok (.file key canonical)) :
    FileAt t root relative key canonical := by
  obtain hnode | ⟨bytes, hnode⟩ := (admissible_of_inspectEntry h).plain
  · cases ((inspectEntry_directory hnode).mp h).2.2
  · obtain ⟨-, key', canonical', hfile, heq⟩ := (inspectEntry_file hnode).mp h
    cases heq
    exact hfile

theorem inspectEntry_eq_directory {children : List RelPath}
    (h : inspectEntry t.reader root remaining relative = .ok (.directory children)) :
    t.node (root ++ relative) = some .directory ∧ children = t.children root relative := by
  obtain hnode | ⟨bytes, hnode⟩ := (admissible_of_inspectEntry h).plain
  · cases ((inspectEntry_directory hnode).mp h).2.2
    exact ⟨hnode, rfl⟩
  · obtain ⟨-, key, canonical, -, heq⟩ := (inspectEntry_file hnode).mp h
    cases heq

/-! ## The whole walk -/

/-- Every pending root exists, and all that is walked from it is admissible. -/
structure Walkable (t : FileSystemTree) (root : AbsPath) (pending : List RelPath) : Prop where
  present : ∀ start ∈ pending,
    containsGitComponent start = true ∨ t.node (root ++ start) ≠ none
  admissible : ∀ start ∈ pending, ∀ path ∈ t.walked root start, Admissible t root path

/-- What a walk that ends has done with its pending stack. -/
structure Walk (t : FileSystemTree) (root : AbsPath) (pending : List RelPath) (entries : ℕ)
    (files : FoundFiles) (entries' : ℕ) (files' : FoundFiles) : Prop extends
    Walkable t root pending where
  counted : entries' = entries + (pending.map (t.size root)).sum
  found : (∀ key canonical, files.get? key = some canonical →
      ∃ relative, FileAt t root relative key canonical) →
    ∀ key canonical, files'.get? key = some canonical ↔
      files.get? key = some canonical ∨
        ∃ start ∈ pending, ∃ path ∈ t.walked root start, FileAt t root path key canonical

variable {pending : List RelPath} {entries entries' : ℕ}

theorem Walk.git {files files' : FoundFiles} (hgit : containsGitComponent relative = true)
    (h : Walk t root pending entries files entries' files') :
    Walk t root (relative :: pending) entries files entries' files' where
  present := forall_mem_cons.mpr ⟨.inl hgit, h.present⟩
  admissible := by
    refine forall_mem_cons.mpr ⟨fun path hpath => ?_, h.admissible⟩
    rw [FileSystemTree.walked_git hgit] at hpath
    exact hpath.elim
  counted := by
    rw [map_cons, sum_cons, FileSystemTree.size_git hgit, zero_add]
    exact h.counted
  found hfiles key canonical := by
    rw [h.found hfiles]
    simp only [mem_cons, exists_eq_or_imp, FileSystemTree.walked_git hgit]
    simp

/-- A file is recorded under its key; under this key there can be no other file. -/
theorem Walk.file {relative : RelPath} {pending : List RelPath} {entries entries' : ℕ}
    {files files' : FoundFiles} {key : PortableRelativePath} {canonical : AbsPath}
    (hgit : containsGitComponent relative = false) (hadmissible : Admissible t root relative)
    (hfile : FileAt t root relative key canonical)
    (h : Walk t root pending (entries + 1) (files.insert key canonical) entries' files') :
    Walk t root (relative :: pending) entries files entries' files' := by
  obtain ⟨bytes, hnode⟩ := hfile.file
  have hsome : t.node (root ++ relative) ≠ none := by rw [hnode]; exact nofun
  have hleaf : t.node (root ++ relative) ≠ some .directory := by rw [hnode]; exact nofun
  have hwalked := FileSystemTree.walked_leaf hgit hsome hleaf
  refine ⟨⟨forall_mem_cons.mpr ⟨.inr hsome, h.present⟩,
    forall_mem_cons.mpr ⟨fun path hpath => ?_, h.admissible⟩⟩, ?_, fun hfiles k c => ?_⟩
  · rw [hwalked] at hpath
    exact hpath ▸ hadmissible
  · rw [map_cons, sum_cons, FileSystemTree.size_leaf hgit hsome hleaf, h.counted]
    omega
  · have hinserted : ∀ k c, (files.insert key canonical).get? k = some c ↔
        files.get? k = some c ∨ FileAt t root relative k c := by
      intro k c
      rw [SortedMap.get?_insert]
      split_ifs with hk
      · subst hk
        constructor
        · intro hc
          cases hc
          exact .inr hfile
        · rintro (hc | hc)
          · obtain ⟨_, hc⟩ := hfiles k c hc
            exact congrArg some (hfile.canonical_eq hc)
          · exact congrArg some (hfile.canonical_eq hc)
      · refine ⟨.inl, fun hc => hc.resolve_right fun hc => hk ?_⟩
        have hkey := hc.key_eq
        rw [hfile.key_eq] at hkey
        cases hkey
        rfl
    have hstart : ∀ k c, (files.insert key canonical).get? k = some c →
        ∃ relative, FileAt t root relative k c := by
      intro k c hc
      rcases (hinserted k c).mp hc with hc | hc
      · exact hfiles k c hc
      · exact ⟨relative, hc⟩
    rw [h.found hstart, hinserted, or_assoc]
    simp only [mem_cons, exists_eq_or_imp, hwalked]
    simp

/-- The children of a directory take its place on the stack. -/
theorem Walk.directory {relative : RelPath} {pending : List RelPath} {entries entries' : ℕ}
    {files files' : FoundFiles} (hgit : containsGitComponent relative = false)
    (hadmissible : Admissible t root relative)
    (hnode : t.node (root ++ relative) = some .directory)
    (h : Walk t root (t.children root relative ++ pending) (entries + 1) files entries' files') :
    Walk t root (relative :: pending) entries files entries' files' := by
  have hsome : t.node (root ++ relative) ≠ none := by rw [hnode]; exact nofun
  have hwalked := FileSystemTree.walked_directory hgit hnode
  have hpresent := forall_mem_append.mp h.present
  have hadmissibles := forall_mem_append.mp h.admissible
  refine ⟨⟨forall_mem_cons.mpr ⟨.inr hsome, hpresent.2⟩,
    forall_mem_cons.mpr ⟨fun path hpath => ?_, hadmissibles.2⟩⟩, ?_, fun hfiles k c => ?_⟩
  · rw [hwalked] at hpath
    rcases hpath with rfl | ⟨child, hchild, hpath⟩
    · exact hadmissible
    · exact hadmissibles.1 child hchild path hpath
  · rw [map_cons, sum_cons, FileSystemTree.size_directory hgit hnode, h.counted,
      map_append, sum_append]
    omega
  · have hself : ¬ FileAt t root relative k c := by
      rintro ⟨⟨bytes, hbytes⟩, -, -⟩
      rw [hnode] at hbytes
      cases hbytes
    rw [h.found hfiles]
    simp only [mem_cons, exists_eq_or_imp, hwalked]
    refine or_congr_right ?_
    constructor
    · rintro ⟨start, hstart, path, hpath, hfile⟩
      rcases List.mem_append.mp hstart with hstart | hstart
      · exact .inl ⟨path, .inr ⟨start, hstart, hpath⟩, hfile⟩
      · exact .inr ⟨start, hstart, path, hpath, hfile⟩
    · rintro (⟨path, rfl | ⟨child, hchild, hpath⟩, hfile⟩ | ⟨start, hstart, hpath⟩)
      · exact absurd hfile hself
      · exact ⟨child, List.mem_append_left _ hchild, path, hpath, hfile⟩
      · exact ⟨start, List.mem_append_right _ hstart, hpath⟩

variable {limit : ℕ}

/-- A walk that ends has visited all that is walked from its stack, and recorded its files. -/
theorem walk_sound {files files' : FoundFiles}
    (h : walk t.reader root limit pending entries files = .ok (entries', files')) :
    Walk t root pending entries files entries' files' := by
  fun_induction walk t.reader root limit pending entries files with
  | case1 entries files =>
    cases h
    exact ⟨⟨nofun, nofun⟩, rfl, fun _ key canonical => by simp⟩
  | case2 relative pending entries files hgit ih => exact .git hgit (ih h)
  | case3 => cases h
  | case4 relative pending entries files hgit hlimit key canonical hinspect ih =>
    exact .file (Bool.not_eq_true _ ▸ hgit) (admissible_of_inspectEntry hinspect)
      (inspectEntry_eq_file hinspect) (ih h)
  | case5 relative pending entries files hgit hlimit children hinspect ih =>
    obtain ⟨hnode, rfl⟩ := inspectEntry_eq_directory hinspect
    exact .directory (Bool.not_eq_true _ ▸ hgit) (admissible_of_inspectEntry hinspect) hnode (ih h)
  | case6 => cases h

theorem walk_le {files files' : FoundFiles}
    (h : walk t.reader root limit pending entries files = .ok (entries', files'))
    (hentries : entries ≤ limit) : entries' ≤ limit := by
  fun_induction walk t.reader root limit pending entries files with
  | case1 entries files =>
    cases h
    exact hentries
  | case2 relative pending entries files hgit ih => exact ih h hentries
  | case3 => cases h
  | case4 relative pending entries files hgit hlimit key canonical hinspect ih => exact ih h hlimit
  | case5 relative pending entries files hgit hlimit children hinspect ih => exact ih h hlimit
  | case6 => cases h

/-- An admissible entry is inspected without an error, if its children fit the limit. -/
theorem inspectEntry_of_admissible (h : Admissible t root relative)
    (hlimit : t.node (root ++ relative) = some .directory →
      (t.listing (root ++ relative)).length ≤ remaining) :
    ∃ entry, inspectEntry t.reader root remaining relative = .ok entry := by
  obtain hnode | ⟨bytes, hnode⟩ := h.plain
  · exact ⟨_, (inspectEntry_directory hnode).mpr ⟨h, hlimit hnode, rfl⟩⟩
  · obtain ⟨canonical, hresolve, -⟩ := h.inside
    have hkey : portableRelativePath relative =
        .ok ⟨joined relative, relative, h.utf8 bytes hnode, rfl⟩ :=
      portableRelativePath_eq_ok.mpr ⟨h.utf8 bytes hnode, rfl⟩
    exact ⟨_, (inspectEntry_file hnode).mpr ⟨h, _, _, ⟨⟨bytes, hnode⟩, hkey, hresolve⟩, rfl⟩⟩

theorem Walkable.tail (h : Walkable t root (relative :: pending)) : Walkable t root pending :=
  ⟨fun start hstart => h.present start (List.mem_cons_of_mem _ hstart),
    fun start hstart => h.admissible start (List.mem_cons_of_mem _ hstart)⟩

theorem Walkable.node {relative : RelPath} {pending : List RelPath}
    (h : Walkable t root (relative :: pending)) (hgit : ¬ containsGitComponent relative = true) :
    t.node (root ++ relative) ≠ none :=
  (h.present relative mem_cons_self).resolve_left hgit

theorem Walkable.head (h : Walkable t root (relative :: pending))
    (hgit : ¬ containsGitComponent relative = true) :
    Admissible t root relative :=
  h.admissible relative mem_cons_self relative
    ⟨prefix_rfl, Bool.not_eq_true _ ▸ hgit, h.node hgit⟩

theorem Walkable.directory {relative : RelPath} {pending : List RelPath}
    (h : Walkable t root (relative :: pending)) (hgit : ¬ containsGitComponent relative = true)
    (hnode : t.node (root ++ relative) = some .directory) :
    Walkable t root (t.children root relative ++ pending) := by
  refine ⟨forall_mem_append.mpr ⟨fun child hchild => .inr ?_, h.tail.present⟩,
    forall_mem_append.mpr ⟨fun child hchild path hpath => ?_, h.tail.admissible⟩⟩
  · obtain ⟨name, hname, rfl⟩ := mem_map.mp hchild
    rw [← append_assoc, ← t.mem_listing _ _ hnode]
    exact (sortNames_perm _).mem_iff.mp hname
  · refine h.admissible relative mem_cons_self path ?_
    rw [FileSystemTree.walked_directory (Bool.not_eq_true _ ▸ hgit) hnode]
    exact .inr ⟨child, hchild, hpath⟩

/-- Under a stack that ends with a file the entry limit is the only limit: the listing of a
directory leaves room for this file, so that a `.git` child is not one too many. -/
theorem walk_total {last : RelPath} {front : List RelPath} (files : FoundFiles)
    (hpending : pending = front ++ [last]) (hgit : containsGitComponent last = false)
    (hlast : t.node (root ++ last) ≠ some .directory) (hwalkable : Walkable t root pending)
    (hentries : entries + (pending.map (t.size root)).sum ≤ limit) :
    ∃ result, walk t.reader root limit pending entries files = .ok result := by
  fun_induction walk t.reader root limit pending entries files generalizing front with
  | case1 entries files => exact ⟨_, rfl⟩
  | case2 relative pending entries files hrelative ih =>
    rcases cons_eq_append_iff.mp hpending with ⟨-, hcons⟩ | ⟨front', -, hrest⟩
    · cases hcons
      rw [hgit] at hrelative
      cases hrelative
    · refine ih hrest hwalkable.tail ?_
      rw [map_cons, sum_cons] at hentries
      omega
  | case3 relative pending entries files hrelative hlimit error hinspect =>
    have hfits : t.node (root ++ relative) = some .directory →
        (t.listing (root ++ relative)).length ≤ limit - (entries + 1) := by
      intro hnode
      have hsize := FileSystemTree.size_directory (Bool.not_eq_true _ ▸ hrelative) hnode
      have hlisting := FileSystemTree.length_listing_le (Bool.not_eq_true _ ▸ hrelative) hnode
      rw [map_cons, sum_cons] at hentries
      rcases cons_eq_append_iff.mp hpending with ⟨-, hcons⟩ | ⟨front', -, rfl⟩
      · cases hcons
        exact absurd hnode hlast
      · have hpos : 0 < t.size root last := FileSystemTree.size_pos hgit
          ((hwalkable.present last (by simp)).resolve_left (by simp [hgit]))
        rw [map_append, sum_append, List.map_singleton, List.sum_singleton] at hentries
        omega
    obtain ⟨entry, hentry⟩ := inspectEntry_of_admissible (hwalkable.head hrelative) hfits
    rw [hinspect] at hentry
    cases hentry
  | case4 relative pending entries files hrelative hlimit key canonical hinspect ih =>
    rcases cons_eq_append_iff.mp hpending with ⟨-, hcons⟩ | ⟨front', -, hrest⟩
    · cases hcons
      rw [walk]
      exact ⟨_, rfl⟩
    · have hpos : 0 < t.size root relative :=
        FileSystemTree.size_pos (Bool.not_eq_true _ ▸ hrelative) (hwalkable.node hrelative)
      refine ih hrest hwalkable.tail ?_
      rw [map_cons, sum_cons] at hentries
      omega
  | case5 relative pending entries files hrelative hlimit children hinspect ih =>
    obtain ⟨hnode, rfl⟩ := inspectEntry_eq_directory hinspect
    rcases cons_eq_append_iff.mp hpending with ⟨-, hcons⟩ | ⟨front', -, hrest⟩
    · cases hcons
      exact absurd hnode hlast
    · have hstack : t.children root relative ++ pending =
          (t.children root relative ++ front') ++ [last] := by rw [hrest, append_assoc]
      refine ih hstack (hwalkable.directory hrelative hnode) ?_
      have hsize := FileSystemTree.size_directory (Bool.not_eq_true _ ▸ hrelative) hnode
      rw [map_cons, sum_cons] at hentries
      rw [map_append, sum_append]
      omega
  | case6 relative pending entries files hrelative hlimit =>
    have hpos : 0 < t.size root relative :=
      FileSystemTree.size_pos (Bool.not_eq_true _ ▸ hrelative) (hwalkable.node hrelative)
    rw [map_cons, sum_cons] at hentries
    omega

end ProvenGraphcal.SourceTree
