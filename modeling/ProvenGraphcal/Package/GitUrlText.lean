import ProvenGraphcal.Package.GitUrl

/-!
# The text of a Git URL read again

When the text that a Git URL is written as parses to the same URL.
-/

namespace ProvenGraphcal

open Checked
open Bool (not_eq_true or_eq_true)
open List (append_assoc append_nil cons_append cons_ne_nil elem_eq_mem exists_cons_of_ne_nil
  forall_mem_cons intercalate_singleton map_append mem_append mem_append_left mem_cons
  mem_cons_of_mem mem_cons_self mem_singleton not_mem_nil)

variable {c : Char} {components : List Text} {after before component : Text}

namespace Text

variable {value : Text}

/-- A property of every character of a text, by evaluation. -/
theorem forall_mem_of_all {p : Char → Prop} [DecidablePred p]
    (h : value.all (fun c => decide (p c)) = true) : ∀ c ∈ value, p c := fun c hc =>
  of_decide_eq_true (List.all_eq_true.mp h c hc)

theorem splitOnce_eq_some :
    value.splitOnce c = some (before, after) ↔ value = before ++ c :: after ∧ c ∉ before := by
  have hstop : ∀ d : Char, (d != c) = true ↔ d ≠ c := fun d => bne_iff_ne
  constructor
  · intro h
    rw [splitOnce] at h
    split at h
    case h_1 => cases h
    case h_2 d rest hdrop =>
      cases h
      have hd : d = c := by
        have := List.head_dropWhile_not (· != c) (by rw [hdrop]; exact cons_ne_nil d _)
        simpa [hdrop] using this
      refine ⟨?_, fun hmem => ?_⟩
      · conv_lhs => rw [← List.takeWhile_append_dropWhile (p := (· != c)) (l := value), hdrop, hd]
      · exact absurd rfl ((hstop c).mp (List.mem_takeWhile_imp (p := (· != c)) hmem))
  · rintro ⟨rfl, hc⟩
    have hbefore : ∀ d ∈ before, (d != c) = true := fun d hd =>
      (hstop d).mpr fun h => hc (h ▸ hd)
    have hdrop : (before ++ c :: after).dropWhile (· != c) = c :: after := by
      rw [List.dropWhile_append_of_pos hbefore, List.dropWhile_cons_of_neg (by simp)]
    have htake : (before ++ c :: after).takeWhile (· != c) = before := by
      rw [List.takeWhile_append_of_pos hbefore, List.takeWhile_cons_of_neg (by simp),
        append_nil]
    rw [splitOnce, hdrop, htake]

theorem rsplitOnce_eq_some :
    value.rsplitOnce c = some (before, after) ↔ value = before ++ c :: after ∧ c ∉ after := by
  rw [rsplitOnce, Option.map_eq_some_iff]
  constructor
  · rintro ⟨⟨a, b⟩, hsplit, h⟩
    cases h
    obtain ⟨hvalue, hc⟩ := splitOnce_eq_some.mp hsplit
    refine ⟨?_, by rwa [List.mem_reverse]⟩
    rw [← List.reverse_reverse value, hvalue]
    simp
  · rintro ⟨rfl, hc⟩
    refine ⟨(after.reverse, before.reverse), splitOnce_eq_some.mpr ⟨by simp, ?_⟩, by simp⟩
    rwa [List.mem_reverse]

/-- A text is trimmed if neither end of it is white space. -/
theorem trim_eq_self :
    value.trim = value ↔ (∀ c ∈ value.head?, isWhitespace c = false) ∧
      ∀ c ∈ value.getLast?, isWhitespace c = false := by
  have hstart : value.dropWhile isWhitespace = value ↔
      ∀ c ∈ value.head?, isWhitespace c = false := by
    cases value with
    | nil => simp
    | cons c rest => simp [List.dropWhile_eq_self_iff]
  have hend : value.rdropWhile isWhitespace = value ↔
      ∀ c ∈ value.getLast?, isWhitespace c = false := by
    rw [List.rdropWhile_eq_self_iff]
    refine ⟨fun h c hc => ?_, fun h hne => ?_⟩
    · have hne : value ≠ [] := by
        rintro rfl
        cases hc
      rw [List.getLast?_eq_some_getLast hne, Option.mem_some] at hc
      exact hc ▸ not_eq_true _ ▸ h hne
    · rw [h _ (List.getLast?_eq_some_getLast hne)]
      exact Bool.false_ne_true
  rw [← hstart, ← hend, trim]
  refine ⟨fun h => ?_, fun ⟨hs, he⟩ => by rw [hs, he]⟩
  have hdrop : value.dropWhile isWhitespace = value := by
    refine (List.dropWhile_suffix _).eq_of_length_le ?_
    calc value.length = ((value.dropWhile isWhitespace).rdropWhile isWhitespace).length := by rw [h]
      _ ≤ (value.dropWhile isWhitespace).length := (List.rdropWhile_prefix _ _).length_le
  exact ⟨hdrop, by rwa [hdrop] at h⟩

theorem splitOn_joinWith (hne : components ≠ []) (h : ∀ component ∈ components, c ∉ component) :
    (joinWith c components).splitOn c = components :=
  List.splitOn_intercalate c h hne

theorem joinWith_splitOn (c : Char) (value : Text) : joinWith c (value.splitOn c) = value :=
  List.intercalate_splitOn c

theorem joinWith_cons (component : Text) (hne : components ≠ []) :
    joinWith c (component :: components) = component ++ c :: joinWith c components := by
  obtain ⟨next, rest, rfl⟩ := exists_cons_of_ne_nil hne
  rw [joinWith, List.intercalate_cons_cons, append_assoc]
  rfl

theorem not_mem_of_mem_splitOn (value : Text) (h : component ∈ value.splitOn c) :
    c ∉ component := by
  induction value generalizing component with
  | nil =>
    rw [List.splitOn_nil, mem_singleton] at h
    rw [h]
    exact not_mem_nil
  | cons d value ih =>
    obtain ⟨first, rest, hsplit⟩ := exists_cons_of_ne_nil (List.splitOn_ne_nil c value)
    rw [List.splitOn_cons_eq_if_modifyHead] at h
    split_ifs at h with hd
    · rcases mem_cons.mp h with rfl | h
      · exact not_mem_nil
      · exact ih h
    · rw [hsplit, List.modifyHead_cons] at h
      rcases mem_cons.mp h with rfl | h
      · have hfirst := ih (hsplit ▸ mem_cons_self)
        rw [mem_cons, not_or]
        exact ⟨fun hc => hd (beq_iff_eq.mpr hc.symm), hfirst⟩
      · exact ih (hsplit ▸ mem_cons_of_mem _ h)

end Text

/-! ## What the parser accepts -/

variable {Host : Type} {lib : UrlLibrary Host}

/-- What the parser asks of a component of a repository path. -/
structure IsRepositoryComponent (component : Text) : Prop where
  ne_nil : component ≠ []
  unambiguous : isAmbiguousRawPathComponent component = false
  no_option : component.startsWith '-' = false

/-- What the parser asks of a text before it looks at its form. -/
structure IsGitUrlText (value : Text) : Prop where
  ne_nil : value ≠ []
  trimmed : value.trim = value
  no_control : ∀ c ∈ value, Text.isControl c = false
  no_backslash : '\\' ∉ value
  unambiguous : ∀ piece ∈ value.splitOn '/', isAmbiguousRawPathComponent piece = false
  no_option : value.startsWith '-' = false

theorem rejectOptionShaped_eq_ok {value : Text} {u : Unit} :
    rejectOptionShaped value = .ok u ↔ value.startsWith '-' = false := by
  rw [rejectOptionShaped, reject_eq_ok, not_eq_true]

theorem parseRepositoryPathComponent_eq_ok {parsed : Text} :
    parseRepositoryPathComponent component = .ok parsed ↔
      IsRepositoryComponent component ∧ parsed = component := by
  rw [parseRepositoryPathComponent]
  split_ifs with h
  · rw [or_eq_true, List.isEmpty_iff] at h
    refine iff_of_false nofun fun ⟨hc, _⟩ => h.elim hc.ne_nil fun hambiguous => ?_
    rw [hc.unambiguous] at hambiguous
    cases hambiguous
  · rw [or_eq_true, List.isEmpty_iff, not_or, not_eq_true] at h
    rw [bind_eq_ok]
    constructor
    · rintro ⟨u, hu, hparsed⟩
      cases hparsed
      exact ⟨⟨h.1, h.2, rejectOptionShaped_eq_ok.mp hu⟩, rfl⟩
    · rintro ⟨hc, rfl⟩
      exact ⟨(), rejectOptionShaped_eq_ok.mpr hc.no_option, rfl⟩

theorem mapM_repositoryPathComponent {path : List Text} :
    components.mapM parseRepositoryPathComponent = .ok path ↔
      (∀ component ∈ components, IsRepositoryComponent component) ∧ path = components := by
  rw [mapM_eq_ok]
  constructor
  · intro h
    induction h with
    | nil => exact ⟨nofun, rfl⟩
    | cons hhead _ ih =>
      obtain ⟨hc, rfl⟩ := parseRepositoryPathComponent_eq_ok.mp hhead
      exact ⟨forall_mem_cons.mpr ⟨hc, ih.1⟩, by rw [ih.2]⟩
  · rintro ⟨h, rfl⟩
    exact List.forall₂_same.mpr fun c hc =>
      parseRepositoryPathComponent_eq_ok.mpr ⟨h c hc, rfl⟩

/-- A path is its components, up to a trailing slash. -/
theorem parseRepositoryPath_eq_ok {path : List Text} :
    parseRepositoryPath components = .ok path ↔
      path ≠ [] ∧ (∀ component ∈ path, IsRepositoryComponent component) ∧
        (components = path ∨ components = path ++ [[]]) := by
  have hkeep : ∀ l : List Text, (∀ c ∈ l, IsRepositoryComponent c) → l.getLast? ≠ some [] :=
    fun l hl hlast => (hl [] (List.mem_of_getLast? hlast)).ne_nil rfl
  have hrest : ∀ l : List Text, (if l.isEmpty then .error .missingRepositoryPath
      else l.mapM parseRepositoryPathComponent : Except GitUrlErrorReason (List Text)) = .ok path ↔
        path ≠ [] ∧ (∀ c ∈ path, IsRepositoryComponent c) ∧ l = path := by
    intro l
    split_ifs with hempty
    · refine iff_of_false nofun fun ⟨hne, _, hl⟩ => hne ?_
      rw [← hl]
      exact List.isEmpty_iff.mp hempty
    · rw [mapM_repositoryPathComponent]
      constructor
      · rintro ⟨hl, rfl⟩
        exact ⟨fun h => hempty (List.isEmpty_iff.mpr h), hl, rfl⟩
      · rintro ⟨-, hl, rfl⟩
        exact ⟨hl, rfl⟩
  simp only [parseRepositoryPath]
  rw [hrest]
  refine and_congr_right fun _ => and_congr_right fun hpath => ?_
  by_cases hlast : components.getLast? = some []
  · have hsplit : components.dropLast ++ [[]] = components :=
      List.dropLast_append_getLast? [] hlast
    rw [if_pos hlast]
    refine ⟨fun h => .inr (by rw [← h, hsplit]), fun h => ?_⟩
    rcases h with rfl | rfl
    · exact absurd hlast (hkeep _ hpath)
    · exact List.dropLast_concat
  · rw [if_neg hlast]
    refine ⟨.inl, fun h => ?_⟩
    rcases h with h | rfl
    · exact h
    · exact absurd List.getLast?_concat hlast

theorem parseRequiredSshUser_eq_ok {value user : Text} :
    parseRequiredSshUser value = .ok user ↔
      value ≠ [] ∧ '@' ∉ value ∧ value.startsWith '-' = false ∧ user = value := by
  rw [parseRequiredSshUser, bind_eq_ok]
  simp only [reject_eq_ok, bind_eq_ok, rejectOptionShaped_eq_ok, or_eq_true,
    List.isEmpty_iff, elem_eq_mem, decide_eq_true_eq, not_or]
  constructor
  · rintro ⟨_, ⟨hne, hat⟩, _, hoption, hok⟩
    exact ⟨hne, hat, hoption, (Except.ok.inj hok).symm⟩
  · rintro ⟨hne, hat, hoption, rfl⟩
    exact ⟨(), ⟨hne, hat⟩, (), hoption, rfl⟩

variable {kind : GitUrlKind Host}

theorem parseGitUrl_eq_ok {value : Text} :
    parseGitUrl lib value = .ok kind ↔ IsGitUrlText value ∧
      (if value.includes "://".toList then parseStandardGitUrl lib value
        else parseScpGitUrl lib value) = .ok kind := by
  rw [parseGitUrl]
  generalize (if value.includes "://".toList then parseStandardGitUrl lib value
    else parseScpGitUrl lib value) = result
  split_ifs with hempty hmalformed hoption
  · exact iff_of_false nofun fun h => h.1.ne_nil (List.isEmpty_iff.mp hempty)
  · refine iff_of_false nofun fun ⟨h, _⟩ => ?_
    simp only [or_eq_true, List.any_eq_true, elem_eq_mem, decide_eq_true_eq] at hmalformed
    rcases hmalformed with ((htrim | ⟨c, hc, hcontrol⟩) | hbackslash) | ⟨piece, hpiece, hbad⟩
    · exact htrim h.trimmed
    · rw [h.no_control c hc] at hcontrol
      cases hcontrol
    · exact h.no_backslash hbackslash
    · rw [h.unambiguous piece hpiece] at hbad
      cases hbad
  · refine iff_of_false nofun fun ⟨h, _⟩ => ?_
    rw [h.no_option] at hoption
    cases hoption
  · refine (and_iff_right ?_).symm
    simp only [or_eq_true, List.any_eq_true, elem_eq_mem, decide_eq_true_eq,
      not_or, not_exists, not_and, not_eq_true, not_not] at hmalformed
    obtain ⟨⟨⟨htrim, hcontrol⟩, hbackslash⟩, hpieces⟩ := hmalformed
    exact ⟨fun h => hempty (List.isEmpty_iff.mpr h), htrim, hcontrol, hbackslash, hpieces,
      Bool.eq_false_iff.mpr hoption⟩

variable {α : Type}

theorem elim_eq_ok {ε : Type} {x : Option α} {e : ε} {a : α} :
    x.elim (throw e) pure = (Except.ok a : Except ε α) ↔ x = some a := by
  cases x with
  | none => exact iff_of_false nofun nofun
  | some b => simp [pure, Except.pure]

/-- The parts of an accepted text in the scp-like form. -/
structure ScpParts (lib : UrlLibrary Host) (value user : Text) (host : Host) (path : List Text) :
    Prop where
  user_ne_nil : user ≠ []
  user_no_at : '@' ∉ user
  user_no_colon : ':' ∉ user
  user_no_option : user.startsWith '-' = false
  rest : ∃ hostText pathText : Text, value = user ++ '@' :: (hostText ++ ':' :: pathText) ∧
    '@' ∉ hostText ∧ ':' ∉ hostText ∧ hostText.startsWith '-' = false ∧
    lib.parseHost hostText = some host ∧ pathText.startsWith '/' = false ∧
    parseRepositoryPath (pathText.splitOn '/') = .ok path

theorem parseScpGitUrl_eq_ok {value : Text} :
    parseScpGitUrl lib value = .ok kind ↔
      ∃ user host path, ScpParts lib value user host path ∧ kind = .scp user host path := by
  rw [parseScpGitUrl]
  simp only [elim_eq_ok, bind_eq_ok, reject_eq_ok, Prod.exists, Text.splitOnce_eq_some]
  constructor
  · rintro ⟨authority, pathText, ⟨rfl, hcolon⟩, _, hstart, h⟩
    cases hsplit : authority.rsplitOnce '@' with
    | none =>
      rw [hsplit] at h
      split_ifs at h <;> cases h
    | some pair =>
      obtain ⟨user, hostText⟩ := pair
      rw [hsplit] at h
      obtain ⟨rfl, hat⟩ := Text.rsplitOnce_eq_some.mp hsplit
      simp only [pure_bind, bind_eq_ok, elim_eq_ok, reject_eq_ok, rejectOptionShaped_eq_ok,
        parseRequiredSshUser_eq_ok] at h
      obtain ⟨_, -, _, hoption, host, hhost, name, ⟨hne, huser, huserOption, rfl⟩, path, hpath,
        h⟩ := h
      cases h
      simp only [mem_append, mem_cons, not_or] at hcolon
      simp only [or_eq_true, not_or, not_eq_true] at hstart
      exact ⟨name, host, path, ⟨hne, huser, hcolon.1, huserOption, hostText, pathText,
        by simp, hat, hcolon.2.2, hoption, hhost, hstart.2, hpath⟩, rfl⟩
  · rintro ⟨user, host, path, ⟨hne, huser, hcolon, huserOption, hostText, pathText, rfl, hat,
      hhostColon, hoption, hhost, hstart, hpath⟩, rfl⟩
    refine ⟨user ++ '@' :: hostText, pathText, ⟨by simp, ?_⟩, (), ?_, ?_⟩
    · simp only [mem_append, mem_cons, not_or]
      exact ⟨hcolon, by decide, hhostColon⟩
    · simp [hstart]
    · rw [Text.rsplitOnce_eq_some.mpr ⟨rfl, hat⟩]
      simp only [pure_bind, bind_eq_ok, elim_eq_ok, reject_eq_ok, rejectOptionShaped_eq_ok,
        parseRequiredSshUser_eq_ok]
      exact ⟨(), by simpa using hat, (), hoption, host, hhost, user,
        ⟨hne, huser, huserOption, rfl⟩, path, hpath, rfl⟩

/-- The parts of an accepted URL: what the URL library has read of it. -/
structure StandardParts (lib : UrlLibrary Host) (value : Text) (parsed : ParsedUrl Host)
    (host : Host) (path : List Text) : Prop where
  parsed_eq : lib.parseUrl value = some parsed
  scheme : parsed.scheme = "https".toList ∨ parsed.scheme = "ssh".toList
  no_query : parsed.query = none
  no_fragment : parsed.fragment = none
  no_password : parsed.password = none
  host_eq : parsed.host = some host
  no_option : (lib.displayHost host).startsWith '-' = false
  segments : ∃ segments, parsed.pathSegments = some segments ∧
    parseRepositoryPath segments = .ok path

theorem parseSshUser_eq_ok {value : Text} {user : Option Text}
    (h : parseSshUser value = .ok user) :
    (value = [] ∧ user = none) ∨ (value ≠ [] ∧ user = some value) := by
  rw [parseSshUser] at h
  split_ifs at h with hempty
  · cases h
    exact .inl ⟨List.isEmpty_iff.mp hempty, rfl⟩
  · obtain ⟨_, hrequired, rfl⟩ := map_eq_ok.mp h
    obtain ⟨hne, -, -, rfl⟩ := parseRequiredSshUser_eq_ok.mp hrequired
    exact .inr ⟨hne, rfl⟩

theorem parseStandardGitUrl_eq_ok {value : Text} :
    parseStandardGitUrl lib value = .ok kind ↔ ∃ parsed host path,
      StandardParts lib value parsed host path ∧
      ((parsed.scheme = "https".toList ∧ parsed.username = [] ∧
        kind = .https host parsed.port path) ∨
      (parsed.scheme = "ssh".toList ∧ ∃ user, parseSshUser parsed.username = .ok user ∧
        kind = .ssh user host parsed.port path)) := by
  rw [parseStandardGitUrl]
  simp only [elim_eq_ok, bind_eq_ok, reject_eq_ok, rejectOptionShaped_eq_ok]
  constructor
  · rintro ⟨parsed, hparsed, _, hscheme, _, hquery, host, hhost, _, hoption, segments, hsegments,
      path, hpath, h⟩
    have hparts : parsed.password = none → StandardParts lib value parsed host path := by
      intro hpassword
      simp only [or_eq_true, not_or, Option.not_isSome_iff_eq_none] at hquery
      exact ⟨hparsed, by tauto, hquery.1, hquery.2, hpassword, hhost, hoption, segments, hsegments,
        hpath⟩
    split_ifs at h with hhttps
    · obtain ⟨_, hcredentials, h⟩ := bind_eq_ok.mp h
      rw [reject_eq_ok] at hcredentials
      simp only [or_eq_true, Bool.not_eq_true', List.isEmpty_eq_false_iff, not_or, not_not,
        Option.not_isSome_iff_eq_none] at hcredentials
      cases h
      exact ⟨parsed, host, path, hparts hcredentials.2, .inl ⟨hhttps, hcredentials.1, rfl⟩⟩
    · obtain ⟨_, hcredentials, h⟩ := bind_eq_ok.mp h
      rw [reject_eq_ok, Option.not_isSome_iff_eq_none] at hcredentials
      obtain ⟨user, huser, rfl⟩ := bind_pure_eq_ok.mp h
      have hparts := hparts hcredentials
      exact ⟨parsed, host, path, hparts, .inr ⟨hparts.scheme.resolve_left hhttps, user, huser, rfl⟩⟩
  · rintro ⟨parsed, host, path, ⟨hparsed, hscheme, hquery, hfragment, hpassword, hhost, hoption,
      segments, hsegments, hpath⟩, h⟩
    refine ⟨parsed, hparsed, (), by tauto, (), by simp [hquery, hfragment], host, hhost, (),
      hoption, segments, hsegments, path, hpath, ?_⟩
    rcases h with ⟨hhttps, husername, rfl⟩ | ⟨hssh, user, huser, rfl⟩
    · rw [if_pos hhttps, bind_eq_ok]
      exact ⟨(), reject_eq_ok.mpr (by simp [husername, hpassword]), rfl⟩
    · rw [if_neg (by rw [hssh]; decide), bind_eq_ok]
      refine ⟨(), reject_eq_ok.mpr (by simp [hpassword]), bind_eq_ok.mpr ⟨user, huser, rfl⟩⟩

/-- Neither a control character nor white space nor a backslash. -/
def isPlainChar (c : Char) : Bool :=
  !Text.isControl c && !Text.isWhitespace c && c != '\\'

/-- The piece of a URL between the slashes of its scheme and its path. -/
def authorityText (lib : UrlLibrary Host) (username : Text) (host : Host) (port : Option UInt16) :
    Text :=
  (if username.isEmpty then [] else username ++ "@".toList) ++ lib.displayHost host ++
    GitUrl.displayPort port

def standardUrlText (lib : UrlLibrary Host) (scheme username : Text) (host : Host)
    (port : Option UInt16) (path : List Text) : Text :=
  scheme ++ "://".toList ++ authorityText lib username host port ++ "/".toList ++
    Text.joinWith '/' path

/-- How the URL library writes what it has read: the parts are percent-encoded where they must be,
and what is put together from them is read as them. -/
structure UrlLibrary.Documented (lib : UrlLibrary Host) : Prop where
  host_text : ∀ text host, ':' ∉ text → lib.parseHost text = some host →
    ∀ c ∈ lib.displayHost host, isPlainChar c = true ∧ c ∉ "/:@%?#".toList
  host_display : ∀ text host, ':' ∉ text → lib.parseHost text = some host →
    lib.parseHost (lib.displayHost host) = some host
  url_text : ∀ value parsed host segments, '\\' ∉ value → lib.parseUrl value = some parsed →
    parsed.scheme = "https".toList ∨ parsed.scheme = "ssh".toList → parsed.host = some host →
    parsed.pathSegments = some segments →
    ∀ part ∈ parsed.username :: lib.displayHost host :: segments, ∀ c ∈ part,
      isPlainChar c = true ∧ c ≠ '/'
  url_assemble : ∀ value parsed host segments path, lib.parseUrl value = some parsed →
    parsed.scheme = "https".toList ∨ parsed.scheme = "ssh".toList → parsed.host = some host →
    parsed.pathSegments = some segments → path ≠ [] → (∀ component ∈ path, component ≠ []) →
    segments = path ∨ segments = path ++ [[]] →
    lib.parseUrl (standardUrlText lib parsed.scheme parsed.username host parsed.port path) =
      some { parsed with
        password := none, pathSegments := some path, query := none, fragment := none }

/-! ## The standard forms -/

theorem isPlainChar_iff : isPlainChar c = true ↔
    Text.isControl c = false ∧ Text.isWhitespace c = false ∧ c ≠ '\\' := by
  simp [isPlainChar, and_assoc]

variable {port : Option UInt16}

theorem isPlainChar_displayPort (h : c ∈ GitUrl.displayPort port) :
    isPlainChar c = true ∧ c ≠ '/' := by
  cases port with
  | none => cases h
  | some port =>
    rcases mem_cons.mp h with rfl | h
    · decide
    · have hdigit : c.isDigit = true := by
        rw [Nat.toString_eq_repr, Nat.toList_repr] at h
        exact Nat.isDigit_of_mem_toDigits (by decide) le_rfl h
      have hrange : 48 ≤ c.toNat ∧ c.toNat ≤ 57 := Char.isDigit_iff_toNat.mp hdigit
      refine ⟨isPlainChar_iff.mpr ⟨?_, ?_, ?_⟩, ?_⟩
      · simp [Text.isControl]
        omega
      · simp [Text.isWhitespace]
        omega
      · rintro rfl
        exact absurd hrange (by decide)
      · rintro rfl
        exact absurd hrange (by decide)

theorem Text.mem_joinWith {separator : Char} (h : c ∈ Text.joinWith separator components) :
    c = separator ∨ ∃ component ∈ components, c ∈ component := by
  induction components with
  | nil => cases h
  | cons component rest ih =>
    cases rest with
    | nil =>
      rw [Text.joinWith, intercalate_singleton] at h
      exact .inr ⟨component, mem_cons_self, h⟩
    | cons next rest =>
      rw [Text.joinWith_cons component (cons_ne_nil next rest), mem_append,
        mem_cons] at h
      rcases h with h | h | h
      · exact .inr ⟨component, mem_cons_self, h⟩
      · exact .inl h
      · rcases ih h with h | ⟨other, hother, hc⟩
        · exact .inl h
        · exact .inr ⟨other, mem_cons_of_mem _ hother, hc⟩

theorem standardUrlText_eq_joinWith {scheme username : Text} {host : Host} {path : List Text}
    (hne : path ≠ []) :
    standardUrlText lib scheme username host port path =
      Text.joinWith '/' ((scheme ++ [':']) :: [] :: authorityText lib username host port ::
        path) := by
  rw [Text.joinWith_cons _ (cons_ne_nil _ _), Text.joinWith_cons _ (cons_ne_nil _ _),
    Text.joinWith_cons _ hne]
  simp [standardUrlText]

theorem includes_standard {scheme username : Text} {host : Host} {path : List Text} :
    (standardUrlText lib scheme username host port path).includes "://".toList = true := by
  have hinfix : "://".toList <:+: standardUrlText lib scheme username host port path := by
    refine ⟨scheme, authorityText lib username host port ++ "/".toList ++ Text.joinWith '/' path, ?_⟩
    simp [standardUrlText]
  exact decide_eq_true hinfix

section Standard

variable (hlib : lib.Documented) {value : Text} {parsed : ParsedUrl Host} {host : Host}
  {path : List Text}

include hlib

theorem standardPieces_plain (hvalue : IsGitUrlText value)
    (hparts : StandardParts lib value parsed host path) :
    ∀ piece ∈ (parsed.scheme ++ [':']) :: [] :: authorityText lib parsed.username host parsed.port ::
      path, ∀ c ∈ piece, isPlainChar c = true ∧ c ≠ '/' := by
  obtain ⟨segments, hsegments, hpath⟩ := hparts.segments
  obtain ⟨-, -, hshape⟩ := parseRepositoryPath_eq_ok.mp hpath
  have htext := hlib.url_text value parsed host segments hvalue.no_backslash hparts.parsed_eq
    hparts.scheme hparts.host_eq hsegments
  have hscheme : ∀ c ∈ parsed.scheme ++ [':'], isPlainChar c = true ∧ c ≠ '/' := by
    rcases hparts.scheme with h | h <;> rw [h] <;> exact Text.forall_mem_of_all (by decide)
  have hauthority : ∀ c ∈ authorityText lib parsed.username host parsed.port,
      isPlainChar c = true ∧ c ≠ '/' := by
    intro c hc
    simp only [authorityText, mem_append] at hc
    rcases hc with (hc | hc) | hc
    · split_ifs at hc
      · cases hc
      · rcases mem_append.mp hc with hc | hc
        · exact htext _ mem_cons_self c hc
        · rw [mem_singleton.mp hc]
          decide
    · exact htext _ (mem_cons_of_mem _ mem_cons_self) c hc
    · exact isPlainChar_displayPort hc
  have hsub : ∀ component ∈ path, component ∈ segments := by
    intro component hcomponent
    rcases hshape with rfl | rfl
    · exact hcomponent
    · exact mem_append_left _ hcomponent
  refine forall_mem_cons.mpr ⟨hscheme, forall_mem_cons.mpr ⟨nofun,
    forall_mem_cons.mpr ⟨hauthority, fun component hcomponent => ?_⟩⟩⟩
  exact htext _ (mem_cons_of_mem _ (mem_cons_of_mem _ (hsub component hcomponent)))

/-- The text of a URL is no refused text, unless its authority is an ambiguous piece. -/
theorem isGitUrlText_standard (hvalue : IsGitUrlText value)
    (hparts : StandardParts lib value parsed host path) :
    IsGitUrlText (standardUrlText lib parsed.scheme parsed.username host parsed.port path) ↔
      isAmbiguousRawPathComponent (authorityText lib parsed.username host parsed.port) = false := by
  obtain ⟨segments, hsegments, hpath⟩ := hparts.segments
  obtain ⟨hne, hcomponents, -⟩ := parseRepositoryPath_eq_ok.mp hpath
  have hpieces := standardPieces_plain hlib hvalue hparts
  rw [standardUrlText_eq_joinWith hne]
  generalize htext : Text.joinWith '/' ((parsed.scheme ++ [':']) :: [] ::
    authorityText lib parsed.username host parsed.port :: path) = text
  have hsplit : text.splitOn '/' = (parsed.scheme ++ [':']) :: [] ::
      authorityText lib parsed.username host parsed.port :: path := by
    rw [← htext]
    exact Text.splitOn_joinWith (cons_ne_nil _ _) fun piece hpiece hc =>
      (hpieces piece hpiece '/' hc).2 rfl
  have hplain : ∀ c ∈ text, isPlainChar c = true := by
    intro c hc
    rw [← htext] at hc
    rcases Text.mem_joinWith hc with rfl | ⟨piece, hpiece, hc⟩
    · decide
    · exact (hpieces piece hpiece c hc).1
  have hhead : ∃ c rest, text = c :: rest ∧ c ≠ '-' := by
    rw [← htext, Text.joinWith_cons _ (cons_ne_nil _ _)]
    rcases hparts.scheme with h | h <;> rw [h] <;> exact ⟨_, _, rfl, by decide⟩
  refine ⟨fun h => h.unambiguous _ (by rw [hsplit]; simp), fun hauthority => ?_⟩
  obtain ⟨c, rest, hcons, hc⟩ := hhead
  have hnil : text ≠ [] := by
    rw [hcons]
    exact cons_ne_nil c rest
  refine ⟨hnil, Text.trim_eq_self.mpr ⟨fun d hd => ?_, fun d hd => ?_⟩, fun d hd => ?_,
    fun hd => ?_, ?_, ?_⟩
  · exact (isPlainChar_iff.mp (hplain d (List.mem_of_mem_head? hd))).2.1
  · exact (isPlainChar_iff.mp (hplain d (List.mem_of_mem_getLast? hd))).2.1
  · exact (isPlainChar_iff.mp (hplain d hd)).1
  · exact (isPlainChar_iff.mp (hplain _ hd)).2.2 rfl
  · rw [hsplit]
    refine forall_mem_cons.mpr ⟨?_, forall_mem_cons.mpr ⟨by decide,
      forall_mem_cons.mpr ⟨hauthority, fun component hcomponent =>
        (hcomponents component hcomponent).unambiguous⟩⟩⟩
    rcases hparts.scheme with h | h <;> rw [h] <;> decide
  · rw [hcons]
    simpa [Text.startsWith] using hc

theorem standardParts_standard
    (hparts : StandardParts lib value parsed host path) :
    StandardParts lib (standardUrlText lib parsed.scheme parsed.username host parsed.port path)
      { parsed with password := none, pathSegments := some path, query := none, fragment := none }
      host path := by
  obtain ⟨segments, hsegments, hpath⟩ := hparts.segments
  obtain ⟨hne, hcomponents, hshape⟩ := parseRepositoryPath_eq_ok.mp hpath
  refine ⟨?_, hparts.scheme, rfl, rfl, rfl, hparts.host_eq, hparts.no_option, path, rfl, ?_⟩
  · exact hlib.url_assemble value parsed host segments path hparts.parsed_eq hparts.scheme
      hparts.host_eq hsegments hne (fun component hc => (hcomponents component hc).ne_nil) hshape
  · exact parseRepositoryPath_eq_ok.mpr ⟨hne, hcomponents, .inl rfl⟩

end Standard

/-! ## The scp-like form -/

/-- A pattern without a separator lies on one side of it. -/
theorem infix_append_cons {pattern a b : List α} {separator : α} (hseparator : separator ∉ pattern)
    (h : pattern <:+: a ++ separator :: b) :
    pattern <:+: a ∨ pattern <:+: b := by
  obtain ⟨x, y, h⟩ := h
  rcases List.append_eq_append_iff.mp h with ⟨t, ha, -⟩ | ⟨t, ha, hb⟩
  · exact .inl ⟨x, t, ha.symm⟩
  · cases t with
    | nil => exact .inl ⟨x, [], by rw [ha, append_nil, append_nil]⟩
    | cons d t =>
      rw [cons_append, List.cons.injEq] at hb
      obtain ⟨rfl, rfl⟩ := hb
      rcases List.append_eq_append_iff.mp ha with ⟨r, -, hp⟩ | ⟨r, -, hr⟩
      · exact absurd (by rw [hp]; simp) hseparator
      · cases r with
        | nil => exact absurd (by rw [List.nil_append] at hr; rw [← hr]; simp) hseparator
        | cons d' r =>
          rw [cons_append, List.cons.injEq] at hr
          exact .inr ⟨r, y, by rw [hr.2]⟩

/-- A pattern lies behind a text without its first character. -/
theorem infix_of_infix_append {pattern a b : List α} {first : α} (hfirst : first ∉ a)
    (h : first :: pattern <:+: a ++ b) : first :: pattern <:+: b := by
  induction a with
  | nil => exact h
  | cons d a ih =>
    rw [mem_cons, not_or] at hfirst
    rw [cons_append, List.infix_cons_iff] at h
    rcases h with h | h
    · rw [List.cons_prefix_cons] at h
      exact absurd h.1 hfirst.1
    · exact ih hfirst.2 h

theorem toLower_eq_percent (h : c.toLower = '%') : c = '%' := by
  unfold Char.toLower at h
  split_ifs at h with hupper
  · have hval : c.val + ('a'.val - 'A'.val) = '%'.val := congrArg Char.val h
    have hc : c.val = '%'.val - ('a'.val - 'A'.val) := by rw [← hval, UInt32.add_sub_cancel]
    rw [hc] at hupper
    exact absurd hupper (by decide)
  · exact h

/-- The lower-case part of a piece that decides whether it is ambiguous. -/
def rawPathPrefix (piece : Text) : Text :=
  (piece.takeWhile fun c => c != '?' && c != '#').map Char.toLower

theorem isAmbiguousRawPathComponent_eq_false {piece : Text} :
    isAmbiguousRawPathComponent piece = false ↔
      ¬ "%2f".toList <:+: rawPathPrefix piece ∧ ¬ "%5c".toList <:+: rawPathPrefix piece ∧
        rawPathPrefix piece ∉ [".".toList, "..".toList, "%2e".toList, "%2e%2e".toList,
          ".%2e".toList, "%2e.".toList] := by
  rw [isAmbiguousRawPathComponent]
  simp only [Bool.or_eq_false_iff, Text.includes, decide_eq_false_iff_not, rawPathPrefix, and_assoc]

theorem rawPathPrefix_append (h : ∀ c ∈ before, (c != '?' && c != '#') = true) :
    rawPathPrefix (before ++ after) = before.map Char.toLower ++ rawPathPrefix after := by
  rw [rawPathPrefix, List.takeWhile_append_of_pos h, map_append]
  rfl

theorem unambiguous_authority (display : Text) {user start : Text}
    (huser : isAmbiguousRawPathComponent (user ++ '@' :: start) = false)
    (hdisplay : ∀ c ∈ display, c ∉ "%?#".toList)
    (hcomponent : isAmbiguousRawPathComponent component = false) :
    isAmbiguousRawPathComponent (user ++ '@' :: (display ++ ':' :: component)) = false := by
  by_cases hcut : ∀ c ∈ user, (c != '?' && c != '#') = true
  · have hpass : ∀ c ∈ display ++ [':'], (c != '?' && c != '#') = true := by
      intro c hc
      rcases mem_append.mp hc with hc | hc
      · have h := hdisplay c hc
        simp only [Bool.and_eq_true, bne_iff_ne]
        exact ⟨fun he => h (he ▸ by decide), fun he => h (he ▸ by decide)⟩
      · rw [mem_singleton.mp hc]
        decide
    have hat : ∀ c ∈ user ++ ['@'], (c != '?' && c != '#') = true := by
      intro c hc
      rcases mem_append.mp hc with hc | hc
      · exact hcut c hc
      · rw [mem_singleton.mp hc]
        decide
    have holdText : user ++ '@' :: start = (user ++ ['@']) ++ start := by simp
    have hnewText : user ++ '@' :: (display ++ ':' :: component) =
        (user ++ ['@']) ++ ((display ++ [':']) ++ component) := by simp
    have hold : rawPathPrefix (user ++ '@' :: start) =
        user.map Char.toLower ++ '@' :: rawPathPrefix start := by
      rw [holdText, rawPathPrefix_append hat, map_append, append_assoc]
      rfl
    have hnew : rawPathPrefix (user ++ '@' :: (display ++ ':' :: component)) =
        user.map Char.toLower ++ '@' :: (display.map Char.toLower ++ ':' ::
          rawPathPrefix component) := by
      rw [hnewText, rawPathPrefix_append hat, rawPathPrefix_append hpass, map_append,
        map_append, append_assoc, append_assoc]
      rfl
    have hpercent : '%' ∉ display.map Char.toLower := by
      intro hmem
      obtain ⟨c, hc, hlower⟩ := List.mem_map.mp hmem
      exact hdisplay c hc (toLower_eq_percent hlower ▸ by decide)
    rw [isAmbiguousRawPathComponent_eq_false, hold] at huser
    rw [isAmbiguousRawPathComponent_eq_false] at hcomponent
    have hpattern : ∀ pattern : Text, '%' ∈ pattern → '@' ∉ pattern → ':' ∉ pattern →
        ¬ pattern <:+: user.map Char.toLower ++ '@' :: rawPathPrefix start →
        ¬ pattern <:+: rawPathPrefix component →
        ¬ pattern <:+: user.map Char.toLower ++ '@' :: (display.map Char.toLower ++ ':' ::
          rawPathPrefix component) := by
      intro pattern hmem hseparator hcolon hstart hlast h
      rcases infix_append_cons hseparator h with h | h
      · exact hstart (h.trans (List.prefix_append _ _).isInfix)
      · rcases infix_append_cons hcolon h with h | h
        · exact hpercent (h.subset hmem)
        · exact hlast h
    have hdots : ∀ text ∈ [".".toList, "..".toList, "%2e".toList, "%2e%2e".toList, ".%2e".toList,
        "%2e.".toList], '@' ∉ text := by decide
    rw [isAmbiguousRawPathComponent_eq_false, hnew]
    exact ⟨hpattern _ (by decide) (by decide) (by decide) huser.1 hcomponent.1,
      hpattern _ (by decide) (by decide) (by decide) huser.2.1 hcomponent.2.1,
      fun h => hdots _ h (by simp)⟩
  · have hsame : ∀ after : Text, rawPathPrefix (user ++ after) = rawPathPrefix user := by
      intro after
      have hlength : (user.takeWhile fun c => c != '?' && c != '#').length ≠ user.length := by
        intro h
        refine hcut fun c hc => ?_
        have heq : (user.takeWhile fun c => c != '?' && c != '#') = user :=
          (List.takeWhile_prefix _).eq_of_length h
        rw [← heq] at hc
        exact List.mem_takeWhile_imp (p := fun c => c != '?' && c != '#') hc
      rw [rawPathPrefix, List.takeWhile_append, if_neg hlength]
      rfl
    rw [isAmbiguousRawPathComponent_eq_false, hsame] at huser ⊢
    exact huser

variable {init : List Text}

theorem Text.joinWith_append_join {rest : List Text} {last first middle : Text} :
    Text.joinWith c (init ++ [last]) ++ (middle ++ Text.joinWith c (first :: rest)) =
      Text.joinWith c (init ++ (last ++ (middle ++ first)) :: rest) := by
  induction init with
  | nil =>
    cases rest with
    | nil => simp [Text.joinWith, intercalate_singleton]
    | cons next rest =>
      have hne := cons_ne_nil next rest
      simp only [List.nil_append, Text.joinWith_cons _ hne, append_assoc]
      simp [Text.joinWith, intercalate_singleton]
  | cons text init ih =>
    have hleft : init ++ [last] ≠ [] := by simp
    have hright : init ++ (last ++ (middle ++ first)) :: rest ≠ [] := by simp
    rw [cons_append, Text.joinWith_cons text hleft, cons_append,
      Text.joinWith_cons text hright, ← ih, append_assoc, cons_append]

theorem Text.joinWith_concat (hne : init ≠ []) (last : Text) :
    Text.joinWith c (init ++ [last]) = Text.joinWith c init ++ c :: last := by
  induction init with
  | nil => exact absurd rfl hne
  | cons text init ih =>
    cases init with
    | nil => simp [Text.joinWith, intercalate_singleton]
    | cons next init =>
      have hrest : next :: init ++ [last] ≠ [] := by simp
      rw [cons_append, Text.joinWith_cons text hrest, ih (cons_ne_nil next init),
        Text.joinWith_cons text (cons_ne_nil next init), append_assoc, cons_append]

/-- The pieces of two texts joined by something without separators. -/
theorem Text.splitOn_append (middle : Text) {last first : Text} {rest : List Text}
    (hbefore : before.splitOn c = init ++ [last]) (hafter : after.splitOn c = first :: rest)
    (hmiddle : c ∉ middle) :
    (before ++ (middle ++ after)).splitOn c = init ++ (last ++ (middle ++ first)) :: rest := by
  have hpieces : ∀ piece ∈ init ++ (last ++ (middle ++ first)) :: rest, c ∉ piece := by
    have hb : ∀ piece ∈ init ++ [last], c ∉ piece := fun piece hpiece =>
      Text.not_mem_of_mem_splitOn before (hbefore ▸ hpiece)
    have ha : ∀ piece ∈ first :: rest, c ∉ piece := fun piece hpiece =>
      Text.not_mem_of_mem_splitOn after (hafter ▸ hpiece)
    intro piece hpiece
    rcases mem_append.mp hpiece with h | h
    · exact hb piece (mem_append_left _ h)
    · rcases mem_cons.mp h with rfl | h
      · simp only [mem_append, not_or]
        exact ⟨hb last (by simp), hmiddle, ha first mem_cons_self⟩
      · exact ha piece (mem_cons_of_mem _ h)
  have hjoin : before ++ (middle ++ after) =
      Text.joinWith c (init ++ (last ++ (middle ++ first)) :: rest) := by
    rw [← Text.joinWith_append_join, ← hbefore, ← hafter, Text.joinWith_splitOn,
      Text.joinWith_splitOn]
  rw [hjoin, Text.splitOn_joinWith (by simp) hpieces]

variable {pathText : Text}

section Scp

variable (hlib : lib.Documented) {value user : Text} {host : Host} {path : List Text}

def scpUrlText (lib : UrlLibrary Host) (user : Text) (host : Host) (path : List Text) : Text :=
  user ++ '@' :: (lib.displayHost host ++ ':' :: Text.joinWith '/' path)

section

variable (h : parseRepositoryPath (pathText.splitOn '/') = .ok path)

include h

/-- The path of an accepted text is the written path, up to a slash. -/
theorem pathText_eq :
    pathText = Text.joinWith '/' path ∨ pathText = Text.joinWith '/' path ++ ['/'] := by
  obtain ⟨hne, -, hshape⟩ := parseRepositoryPath_eq_ok.mp h
  rw [← Text.joinWith_splitOn '/' pathText]
  rcases hshape with h | h
  · exact .inl (by rw [h])
  · exact .inr (by rw [h, Text.joinWith_concat hne])

theorem component_no_slash (hcomponent : component ∈ path) : '/' ∉ component := by
  obtain ⟨-, -, hshape⟩ := parseRepositoryPath_eq_ok.mp h
  refine Text.not_mem_of_mem_splitOn pathText ?_
  rcases hshape with hshape | hshape <;> rw [hshape]
  · exact hcomponent
  · exact mem_append_left _ hcomponent

end

/-- The written path starts with the first character of a component. -/
theorem joinWith_ne_slash (hne : path ≠ []) (hcomponents : ∀ component ∈ path, component ≠ [])
    (hslash : ∀ component ∈ path, '/' ∉ component) :
    Text.joinWith '/' path ≠ [] ∧ (Text.joinWith '/' path).startsWith '/' = false := by
  obtain ⟨first, rest, rfl⟩ := exists_cons_of_ne_nil hne
  obtain ⟨c, text, rfl⟩ := exists_cons_of_ne_nil (hcomponents first mem_cons_self)
  have hc : c ≠ '/' := fun h => hslash _ mem_cons_self (h ▸ mem_cons_self)
  obtain ⟨tail, htail⟩ : ∃ tail, Text.joinWith '/' ((c :: text) :: rest) = c :: tail := by
    cases rest with
    | nil => exact ⟨text, by rw [Text.joinWith, intercalate_singleton]⟩
    | cons next rest => exact ⟨_, Text.joinWith_cons _ (cons_ne_nil next rest)⟩
  rw [htail]
  exact ⟨cons_ne_nil c tail, by simpa [Text.startsWith] using hc⟩

include hlib

theorem scpParts_scp (hparts : ScpParts lib value user host path)
    (hoption : (lib.displayHost host).startsWith '-' = false) :
    ScpParts lib (scpUrlText lib user host path) user host path := by
  obtain ⟨hostText, pathText, -, -, hcolon, -, hhost, -, hpath⟩ := hparts.rest
  obtain ⟨hne, hcomponents, -⟩ := parseRepositoryPath_eq_ok.mp hpath
  have htext := hlib.host_text hostText host hcolon hhost
  refine ⟨hparts.user_ne_nil, hparts.user_no_at, hparts.user_no_colon, hparts.user_no_option,
    lib.displayHost host, Text.joinWith '/' path, rfl, fun h => ?_, fun h => ?_, hoption,
    hlib.host_display hostText host hcolon hhost, ?_, ?_⟩
  · exact (htext '@' h).2 (by decide)
  · exact (htext ':' h).2 (by decide)
  · exact (joinWith_ne_slash hne (fun c hc => (hcomponents c hc).ne_nil)
      fun c hc => component_no_slash hpath hc).2
  · rw [Text.splitOn_joinWith hne fun c hc => component_no_slash hpath hc]
    exact parseRepositoryPath_eq_ok.mpr ⟨hne, hcomponents, .inl rfl⟩

/-- The text of a URL in the scp-like form is no refused text, unless its path ends in white
space. -/
theorem isGitUrlText_scp (hvalue : IsGitUrlText value)
    (hparts : ScpParts lib value user host path) :
    IsGitUrlText (scpUrlText lib user host path) ↔
      ∀ c ∈ (Text.joinWith '/' path).getLast?, Text.isWhitespace c = false := by
  obtain ⟨hostText, pathText, rfl, -, hcolon, -, hhost, -, hpath⟩ := hparts.rest
  obtain ⟨hne, hcomponents, -⟩ := parseRepositoryPath_eq_ok.mp hpath
  have htext := hlib.host_text hostText host hcolon hhost
  have hpathText := pathText_eq hpath
  obtain ⟨hjoin, -⟩ := joinWith_ne_slash hne (fun c hc => (hcomponents c hc).ne_nil)
    fun c hc => component_no_slash hpath hc
  generalize hwritten : Text.joinWith '/' path = written at hpathText hjoin
  have hsub : ∀ c ∈ written, c ∈ pathText := by
    intro c hc
    rcases hpathText with h | h <;> rw [h]
    · exact hc
    · exact mem_append_left _ hc
  have hchars : ∀ c ∈ scpUrlText lib user host path, Text.isControl c = false ∧ c ≠ '\\' := by
    have hold : ∀ c ∈ user ++ '@' :: (hostText ++ ':' :: pathText),
        Text.isControl c = false ∧ c ≠ '\\' := fun c hc =>
      ⟨hvalue.no_control c hc, fun h => hvalue.no_backslash (h ▸ hc)⟩
    intro c hc
    rw [scpUrlText, hwritten] at hc
    simp only [mem_append, mem_cons] at hc
    rcases hc with hc | rfl | hc | rfl | hc
    · exact hold c (by simp [hc])
    · decide
    · have hplain := isPlainChar_iff.mp (htext c hc).1
      exact ⟨hplain.1, hplain.2.2⟩
    · decide
    · exact hold c (by simp [hsub c hc])
  obtain ⟨first, tail, huser⟩ := exists_cons_of_ne_nil hparts.user_ne_nil
  have hhead : ∀ rest : Text, (user ++ rest).head? = some first := by
    intro rest
    rw [huser]
    rfl
  have hlast : (scpUrlText lib user host path).getLast? = written.getLast? := by
    rw [scpUrlText, hwritten]
    obtain ⟨init, last, rfl⟩ : ∃ init last, written = init ++ [last] :=
      ⟨_, _, (List.dropLast_concat_getLast hjoin).symm⟩
    have hconcat : user ++ '@' :: (lib.displayHost host ++ ':' :: (init ++ [last])) =
        (user ++ '@' :: (lib.displayHost host ++ ':' :: init)) ++ [last] := by simp
    rw [hconcat, List.getLast?_concat, List.getLast?_concat]
  have hpieces : ∀ piece ∈ (scpUrlText lib user host path).splitOn '/',
      isAmbiguousRawPathComponent piece = false := by
    obtain ⟨init, last, huserSplit⟩ : ∃ init last, user.splitOn '/' = init ++ [last] :=
      ⟨_, _, (List.dropLast_concat_getLast (List.splitOn_ne_nil '/' user)).symm⟩
    obtain ⟨start, others, hold⟩ := exists_cons_of_ne_nil
      (List.splitOn_ne_nil '/' (hostText ++ ':' :: pathText))
    obtain ⟨component, components, rfl⟩ := exists_cons_of_ne_nil hne
    have hnew : written.splitOn '/' = component :: components := by
      rw [← hwritten]
      exact Text.splitOn_joinWith hne fun c hc => component_no_slash hpath hc
    have hmiddle : '/' ∉ '@' :: lib.displayHost host ++ [':'] := by
      simp only [cons_append, mem_cons, mem_append, not_or]
      exact ⟨by decide, fun h => (htext '/' h).2 (by decide), by decide, not_mem_nil⟩
    have hvalueSplit := Text.splitOn_append ['@'] huserSplit hold (by decide)
    have htextSplit := Text.splitOn_append _ huserSplit hnew hmiddle
    have hvaluePieces := hvalue.unambiguous
    have hshape : scpUrlText lib user host (component :: components) =
        user ++ (('@' :: lib.displayHost host ++ [':']) ++ written) := by
      simp [scpUrlText, hwritten]
    rw [show user ++ '@' :: (hostText ++ ':' :: pathText) =
      user ++ (['@'] ++ (hostText ++ ':' :: pathText)) from rfl, hvalueSplit] at hvaluePieces
    rw [hshape, htextSplit]
    intro piece hpiece
    rcases mem_append.mp hpiece with h | h
    · exact hvaluePieces piece (mem_append_left _ h)
    · rcases mem_cons.mp h with rfl | h
      · have hpiece := unambiguous_authority (lib.displayHost host)
          (hvaluePieces _ (List.mem_append_right _ mem_cons_self))
          (fun c hc hbad => (htext c hc).2 (by revert hbad; simp; tauto))
          (hcomponents component mem_cons_self).unambiguous
        simpa using hpiece
      · exact (hcomponents piece (mem_cons_of_mem _ h)).unambiguous
  rw [← hlast]
  refine ⟨fun h => (Text.trim_eq_self.mp h.trimmed).2, fun hspace => ?_⟩
  refine ⟨?_, Text.trim_eq_self.mpr ⟨?_, hspace⟩, fun c hc => (hchars c hc).1,
    fun hc => (hchars _ hc).2 rfl, hpieces, ?_⟩
  · simp [scpUrlText]
  · have hstart := (Text.trim_eq_self.mp hvalue.trimmed).1
    rw [hhead] at hstart
    rw [scpUrlText, hhead]
    exact hstart
  · have hoption := hvalue.no_option
    rw [Text.startsWith, hhead] at hoption
    rw [scpUrlText, Text.startsWith, hhead]
    exact hoption

omit hlib in
theorem includes_scp (hlib : lib.Documented) (hparts : ScpParts lib value user host path)
    (hvalue : value.includes "://".toList = false) :
    (scpUrlText lib user host path).includes "://".toList = false := by
  obtain ⟨hostText, pathText, rfl, -, hcolon, -, hhost, -, hpath⟩ := hparts.rest
  have htext := hlib.host_text hostText host hcolon hhost
  rw [Text.includes, decide_eq_false_iff_not] at hvalue ⊢
  intro h
  refine hvalue ?_
  rcases infix_append_cons (by decide) h with h | h
  · exact absurd (h.subset (by decide)) hparts.user_no_colon
  · have hwritten : "://".toList <:+: ':' :: Text.joinWith '/' path :=
      infix_of_infix_append (fun hmem => (htext ':' hmem).2 (by decide)) h
    have hpathText : "://".toList <:+: ':' :: pathText := by
      rcases pathText_eq hpath with hsame | hslash
      · rwa [hsame]
      · rw [hslash, ← cons_append]
        exact hwritten.trans (List.prefix_append _ _).isInfix
    refine hpathText.trans (List.IsSuffix.isInfix ⟨user ++ '@' :: hostText, ?_⟩)
    simp

end Scp

/-- Where a written URL is read back: an authority of only a host must not look like a component
to walk up or an encoded slash, and in the scp-like form neither may the host look like an option
nor the path end in white space. -/
def GitUrl.Rereadable (url : GitUrl lib) : Prop :=
  match url.kind with
  | .https host port _ => isAmbiguousRawPathComponent (authorityText lib [] host port) = false
  | .ssh user host port _ =>
    isAmbiguousRawPathComponent (authorityText lib (user.getD []) host port) = false
  | .scp _ host path => (lib.displayHost host).startsWith '-' = false ∧
    ∀ c ∈ (Text.joinWith '/' path).getLast?, Text.isWhitespace c = false

namespace GitUrl

theorem toText_standard {url : GitUrl lib} {parsed : ParsedUrl Host} {host : Host}
    {path : List Text}
    (h : (parsed.scheme = "https".toList ∧ parsed.username = [] ∧
        url.kind = .https host parsed.port path) ∨
      (parsed.scheme = "ssh".toList ∧ ∃ user, parseSshUser parsed.username = .ok user ∧
        url.kind = .ssh user host parsed.port path)) :
    url.toText = standardUrlText lib parsed.scheme parsed.username host parsed.port path ∧
      (url.Rereadable ↔ isAmbiguousRawPathComponent
        (authorityText lib parsed.username host parsed.port) = false) := by
  rcases h with ⟨hscheme, husername, hkind⟩ | ⟨hscheme, user, huser, hkind⟩
  · rw [toText, Rereadable, hkind, hscheme, husername]
    exact ⟨by simp [standardUrlText, authorityText], Iff.rfl⟩
  · rw [toText, Rereadable, hkind, hscheme]
    rcases parseSshUser_eq_ok huser with ⟨husername, rfl⟩ | ⟨hne, rfl⟩
    · rw [husername]
      exact ⟨by simp [standardUrlText, authorityText], Iff.rfl⟩
    · refine ⟨?_, Iff.rfl⟩
      simp [standardUrlText, authorityText, hne]

/-- The written text of a URL is read as that URL, or refused. -/
theorem parse_toText (hlib : lib.Documented) (url : GitUrl lib) :
    (url.Rereadable → parseGitUrl lib url.toText = .ok url.kind) ∧
      ∀ kind, parseGitUrl lib url.toText = .ok kind → url.Rereadable := by
  obtain ⟨value, hvalue⟩ := url.parsed
  obtain ⟨htext, hparse⟩ := parseGitUrl_eq_ok.mp hvalue
  split_ifs at hparse with hstandard
  · obtain ⟨parsed, host, path, hparts, hkind⟩ := parseStandardGitUrl_eq_ok.mp hparse
    obtain ⟨hwritten, hreread⟩ := toText_standard hkind
    rw [hwritten, hreread]
    have hread := isGitUrlText_standard hlib htext hparts
    refine ⟨fun h => parseGitUrl_eq_ok.mpr ⟨hread.mpr h, ?_⟩, fun kind h =>
      hread.mp (parseGitUrl_eq_ok.mp h).1⟩
    rw [if_pos includes_standard]
    exact parseStandardGitUrl_eq_ok.mpr ⟨_, host, path, standardParts_standard hlib hparts, hkind⟩
  · obtain ⟨user, host, path, hparts, hkind⟩ := parseScpGitUrl_eq_ok.mp hparse
    have hwritten : url.toText = scpUrlText lib user host path := by
      rw [toText, hkind, scpUrlText]
      simp
    rw [hwritten, Rereadable, hkind]
    have hread := isGitUrlText_scp hlib htext hparts
    have hform := includes_scp hlib hparts (Bool.eq_false_iff.mpr hstandard)
    refine ⟨fun h => parseGitUrl_eq_ok.mpr ⟨hread.mpr h.2, ?_⟩, fun kind h => ?_⟩
    · rw [if_neg (by rw [hform]; exact Bool.false_ne_true)]
      exact parseScpGitUrl_eq_ok.mpr ⟨user, host, path, scpParts_scp hlib hparts h.1, rfl⟩
    · obtain ⟨hurl, hscp⟩ := parseGitUrl_eq_ok.mp h
      rw [if_neg (by rw [hform]; exact Bool.false_ne_true)] at hscp
      obtain ⟨user', host', path', hparts', -⟩ := parseScpGitUrl_eq_ok.mp hscp
      obtain ⟨hostText, pathText, -, -, hcolon, -, hhost, -, -⟩ := hparts.rest
      obtain ⟨hostText', pathText', hsplit, -, hcolon', hoption', -⟩ := hparts'.rest
      have hdisplay : ':' ∉ lib.displayHost host := fun hmem =>
        (hlib.host_text hostText host hcolon hhost ':' hmem).2 (by decide)
      have hrest := (Text.splitOnce_eq_some.mpr ⟨rfl, hparts.user_no_at⟩).symm.trans
        (Text.splitOnce_eq_some.mpr ⟨hsplit, hparts'.user_no_at⟩)
      simp only [Option.some.injEq, Prod.mk.injEq] at hrest
      have hhostText := (Text.splitOnce_eq_some.mpr ⟨rfl, hdisplay⟩).symm.trans
        (Text.splitOnce_eq_some.mpr ⟨hrest.2, hcolon'⟩)
      simp only [Option.some.injEq, Prod.mk.injEq] at hhostText
      exact ⟨hhostText.1 ▸ hoption', hread.mp hurl⟩

end GitUrl

end ProvenGraphcal
