import ProvenGraphcal.Package.LockfileRoundTrip

/-!
# One spelling for each Git URL

The written text of a Git URL depends only on what the URL names: its scheme, user, host, port and
repository path. Whether it is read again depends on the text that the URL was read from.
-/

namespace ProvenGraphcal

open Checked

variable {Host : Type} {lib : UrlLibrary Host}

/-- What a Git URL names. -/
structure RepositoryName (Host : Type) where
  /-- The scheme of a URL; none in the scp-like form. -/
  scheme? : Option Text
  user : Text
  host : Host
  port : Option UInt16
  path : List Text

/-- A list of pieces spells a path, with or without a trailing slash. -/
def SpellsPath (pieces path : List Text) : Prop :=
  path.getLast? ≠ some [] ∧ (pieces = path ∨ pieces = path ++ [[]])

/-- What a text names, as the URL library reads its URL or its host. -/
inductive Names (lib : UrlLibrary Host) (value : Text) : RepositoryName Host → Prop
  | url {parsed : ParsedUrl Host} {host : Host} {segments path : List Text} :
    value.includes "://".toList = true → lib.parseUrl value = some parsed →
    parsed.host = some host → parsed.pathSegments = some segments → SpellsPath segments path →
    Names lib value ⟨some parsed.scheme, parsed.username, host, parsed.port, path⟩
  | scp {user hostText pathText : Text} {host : Host} {path : List Text} :
    value.includes "://".toList = false → value = user ++ '@' :: (hostText ++ ':' :: pathText) →
    ':' ∉ user → '@' ∉ hostText → ':' ∉ hostText → lib.parseHost hostText = some host →
    SpellsPath (pathText.splitOn '/') path → Names lib value ⟨none, user, host, none, path⟩

/-- The one spelling of what a URL names. -/
def RepositoryName.text (lib : UrlLibrary Host) (name : RepositoryName Host) : Text :=
  match name.scheme? with
  | some scheme => standardUrlText lib scheme name.user name.host name.port name.path
  | none => scpUrlText lib name.user name.host name.path

def GitUrlKind.path : GitUrlKind Host → List Text
  | .https _ _ path | .ssh _ _ _ path | .scp _ _ path => path

/-- The text that is written for what was read here is read again: as the URL library writes them,
an authority is no ambiguous path component, and a host of the scp-like form does not look like an
option; and no white space stands before a trailing slash of the scp-like form. -/
structure ReadsBack (lib : UrlLibrary Host) (value : Text) : Prop where
  authority : ∀ parsed host, value.includes "://".toList = true →
    lib.parseUrl value = some parsed → parsed.host = some host →
    isAmbiguousRawPathComponent (authorityText lib parsed.username host parsed.port) = false
  host : ∀ user hostText pathText host, value.includes "://".toList = false →
    value = user ++ '@' :: (hostText ++ ':' :: pathText) → ':' ∉ user → '@' ∉ hostText →
    ':' ∉ hostText → lib.parseHost hostText = some host →
    (lib.displayHost host).startsWith '-' = false
  no_blank : value.includes "://".toList = false →
    ∀ c, Text.isWhitespace c = true → ¬ [c, '/'] <:+ value

theorem SpellsPath.unique {pieces path path' : List Text}
    (h : parseRepositoryPath pieces = .ok path') (hspells : SpellsPath pieces path) :
    path = path' := by
  obtain ⟨-, hcomponents, hshape⟩ := parseRepositoryPath_eq_ok.mp h
  have hlast : path'.getLast? ≠ some [] := fun hmem =>
    (hcomponents [] (List.mem_of_getLast? hmem)).ne_nil rfl
  rcases hspells with ⟨hlast', hpieces | hpieces⟩ <;> rcases hshape with hpath | hpath
  · exact hpieces.symm.trans hpath
  · rw [← hpieces, hpath, List.getLast?_concat] at hlast'
    exact absurd rfl hlast'
  · rw [← hpath, hpieces, List.getLast?_concat] at hlast
    exact absurd rfl hlast
  · exact List.append_cancel_right (hpieces.symm.trans hpath)

theorem IsRepositoryComponent.ne_dots {component : Text} (h : IsRepositoryComponent component) :
    component ≠ ".".toList ∧ component ≠ "..".toList := by
  have hunambiguous := h.unambiguous
  refine ⟨fun hdot => ?_, fun hdots => ?_⟩
  · rw [hdot] at hunambiguous
    exact absurd hunambiguous (by decide)
  · rw [hdots] at hunambiguous
    exact absurd hunambiguous (by decide)

/-- The first colon and the last at-sign before it cut the scp-like form. -/
theorem scp_parts_unique {user user' hostText hostText' pathText pathText' : Text}
    (h : user ++ '@' :: (hostText ++ ':' :: pathText) =
      user' ++ '@' :: (hostText' ++ ':' :: pathText'))
    (huser : ':' ∉ user) (huser' : ':' ∉ user') (hat : '@' ∉ hostText) (hat' : '@' ∉ hostText')
    (hcolon : ':' ∉ hostText) (hcolon' : ':' ∉ hostText') :
    user = user' ∧ hostText = hostText' ∧ pathText = pathText' := by
  have hauthority : ∀ {user hostText : Text}, ':' ∉ user → ':' ∉ hostText →
      ':' ∉ user ++ '@' :: hostText := by
    intro user hostText huser hhost
    simp only [List.mem_append, List.mem_cons, not_or]
    exact ⟨huser, by decide, hhost⟩
  have hsplit := Text.splitOnce_eq_some.mpr
    ⟨(List.append_assoc user ('@' :: hostText) (':' :: pathText)).symm, hauthority huser hcolon⟩
  have hsplit' := Text.splitOnce_eq_some.mpr
    ⟨(List.append_assoc user' ('@' :: hostText') (':' :: pathText')).symm,
      hauthority huser' hcolon'⟩
  have hsame := hsplit.symm.trans ((congrArg (Text.splitOnce · ':') h).trans hsplit')
  obtain ⟨hfront, hpath⟩ := Prod.mk.inj (Option.some.inj hsame)
  have hrsplit : Text.rsplitOnce (user ++ '@' :: hostText) '@' = some (user, hostText) :=
    Text.rsplitOnce_eq_some.mpr ⟨rfl, hat⟩
  have hrsplit' : Text.rsplitOnce (user' ++ '@' :: hostText') '@' = some (user', hostText') :=
    Text.rsplitOnce_eq_some.mpr ⟨rfl, hat'⟩
  rw [hfront, hrsplit'] at hrsplit
  obtain ⟨huserEq, hhostEq⟩ := Prod.mk.inj (Option.some.inj hrsplit)
  exact ⟨huserEq.symm, hhostEq.symm, hpath⟩

namespace GitUrl

variable {url : GitUrl lib} {value : Text}

section

variable (h : parseGitUrl lib value = .ok url.kind)

include h

/-- The parts of an accepted URL and of its kind. -/
theorem standardParts_of_parse (hform : value.includes "://".toList = true) : ∃ parsed host path,
      StandardParts lib value parsed host path ∧
      url.toText = standardUrlText lib parsed.scheme parsed.username host parsed.port path ∧
      (url.Rereadable ↔ isAmbiguousRawPathComponent
        (authorityText lib parsed.username host parsed.port) = false) ∧ url.kind.path = path := by
  have hparse := (parseGitUrl_eq_ok.mp h).2
  rw [if_pos hform] at hparse
  obtain ⟨parsed, host, path, hparts, hkind⟩ := parseStandardGitUrl_eq_ok.mp hparse
  obtain ⟨htext, hreread⟩ := toText_standard hkind
  refine ⟨parsed, host, path, hparts, htext, hreread, ?_⟩
  rcases hkind with ⟨-, -, hkind⟩ | ⟨-, user, -, hkind⟩ <;> rw [hkind] <;> rfl

theorem scpParts_of_parse (hform : value.includes "://".toList = false) : ∃ user host path,
      ScpParts lib value user host path ∧ url.kind = .scp user host path ∧
      url.toText = scpUrlText lib user host path := by
  have hparse := (parseGitUrl_eq_ok.mp h).2
  rw [if_neg (by rw [hform]; exact Bool.false_ne_true)] at hparse
  obtain ⟨user, host, path, hparts, hkind⟩ := parseScpGitUrl_eq_ok.mp hparse
  refine ⟨user, host, path, hparts, hkind, ?_⟩
  rw [toText, hkind, scpUrlText]
  simp

theorem exists_names : ∃ name, Names lib value name := by
  have hspells : ∀ {pieces path : List Text}, parseRepositoryPath pieces = .ok path →
      SpellsPath pieces path := by
    intro pieces path hpath
    obtain ⟨-, hcomponents, hshape⟩ := parseRepositoryPath_eq_ok.mp hpath
    exact ⟨fun hlast => (hcomponents [] (List.mem_of_getLast? hlast)).ne_nil rfl, hshape⟩
  by_cases hform : value.includes "://".toList = true
  · obtain ⟨parsed, host, path, hparts, -⟩ := standardParts_of_parse h hform
    obtain ⟨segments, hsegments, hpath⟩ := hparts.segments
    exact ⟨_, .url hform hparts.parsed_eq hparts.host_eq hsegments (hspells hpath)⟩
  · rw [Bool.not_eq_true] at hform
    obtain ⟨user, host, path, hparts, -⟩ := scpParts_of_parse h hform
    obtain ⟨hostText, pathText, hvalue, hat, hcolon, -, hhost, -, hpath⟩ := hparts.rest
    exact ⟨_, .scp hform hvalue hparts.user_no_colon hat hcolon hhost (hspells hpath)⟩

theorem toText_of_names {name : RepositoryName Host} (hname : Names lib value name) :
    url.toText = name.text lib := by
  cases hname with
  | url hform hparsed hhost hsegments hspells =>
    obtain ⟨parsed', host', path', hparts, htext, -⟩ := standardParts_of_parse h hform
    obtain ⟨segments', hsegments', hpath⟩ := hparts.segments
    obtain rfl := Option.some.inj (hparsed.symm.trans hparts.parsed_eq)
    obtain rfl := Option.some.inj (hhost.symm.trans hparts.host_eq)
    obtain rfl := Option.some.inj (hsegments.symm.trans hsegments')
    rw [htext, hspells.unique hpath]
    rfl
  | scp hform hvalue huser hat hcolon hhost hspells =>
    obtain ⟨user', host', path', hparts, -, htext⟩ := scpParts_of_parse h hform
    obtain ⟨hostText', pathText', hvalue', hat', hcolon', -, hhost', -, hpath⟩ := hparts.rest
    obtain ⟨rfl, rfl, rfl⟩ := scp_parts_unique (hvalue.symm.trans hvalue') huser
      hparts.user_no_colon hat hat' hcolon hcolon'
    obtain rfl := Option.some.inj (hhost.symm.trans hhost')
    rw [htext, hspells.unique hpath]
    rfl

end

/-! ## What is written is read again -/

theorem rereadable_iff_standard (h : parseGitUrl lib value = .ok url.kind)
    (hform : value.includes "://".toList = true) : url.Rereadable ↔ ReadsBack lib value := by
  obtain ⟨parsed, host, path, hparts, -, hreread, -⟩ := standardParts_of_parse h hform
  rw [hreread]
  refine ⟨fun hauthority => ⟨?_, ?_, ?_⟩, fun hreads => ?_⟩
  · intro parsed' host' _ hparsed hhost
    obtain rfl := Option.some.inj (hparts.parsed_eq.symm.trans hparsed)
    obtain rfl := Option.some.inj (hparts.host_eq.symm.trans hhost)
    exact hauthority
  · intro _ _ _ _ hscp
    rw [hform] at hscp
    cases hscp
  · intro hscp
    rw [hform] at hscp
    cases hscp
  · exact hreads.authority parsed host hform hparts.parsed_eq hparts.host_eq

/-- A written path ends in a character of its last component. -/
theorem exists_last_ne_slash {path : List Text} (hne : path ≠ [])
    (hcomponents : ∀ component ∈ path, component ≠ [])
    (hslash : ∀ component ∈ path, '/' ∉ component) :
    ∃ init last, Text.joinWith '/' path = init ++ [last] ∧ last ≠ '/' := by
  obtain ⟨front, component, rfl⟩ : ∃ front component, path = front ++ [component] :=
    ⟨_, _, (List.dropLast_concat_getLast hne).symm⟩
  have hmem : component ∈ front ++ [component] := List.mem_append_right _ List.mem_cons_self
  obtain ⟨chars, last, rfl⟩ : ∃ chars last, component = chars ++ [last] :=
    ⟨_, _, (List.dropLast_concat_getLast (hcomponents component hmem)).symm⟩
  have hlast : last ≠ '/' := fun h =>
    hslash _ hmem (h ▸ List.mem_append_right _ List.mem_cons_self)
  by_cases hfront : front = []
  · refine ⟨chars, last, ?_, hlast⟩
    rw [hfront, List.nil_append, Text.joinWith, List.intercalate_singleton]
  · refine ⟨Text.joinWith '/' front ++ '/' :: chars, last, ?_, hlast⟩
    rw [Text.joinWith_concat hfront, List.append_assoc, List.cons_append]

/-- The path ends in white space exactly if this stands before a dropped slash. -/
theorem last_blank_iff {front init pathText : Text} {last : Char} (hlast : last ≠ '/')
    (htrim : (front ++ pathText).trim = front ++ pathText)
    (hshape : pathText = init ++ [last] ∨ pathText = init ++ [last] ++ ['/']) :
    Text.isWhitespace last = false ↔
      ∀ c, Text.isWhitespace c = true → ¬ [c, '/'] <:+ front ++ pathText := by
  rcases hshape with rfl | rfl
  · refine iff_of_true ?_ fun c _ hsuffix => ?_
    · refine (Text.trim_eq_self.mp htrim).2 last ?_
      rw [← List.append_assoc, List.getLast?_concat, Option.mem_some]
    · obtain ⟨rest, hrest⟩ := hsuffix
      have hsame := congrArg List.getLast? hrest
      rw [← List.append_assoc, List.getLast?_concat, List.append_cons,
        List.getLast?_concat] at hsame
      exact hlast (Option.some.inj hsame).symm
  · have hvalue : front ++ (init ++ [last] ++ ['/']) = front ++ init ++ [last, '/'] := by simp
    rw [hvalue]
    constructor
    · intro hplain c hblank hsuffix
      obtain ⟨rest, hrest⟩ := hsuffix
      have hpair := (List.append_inj' hrest rfl).2
      rw [(List.cons.inj hpair).1, hplain] at hblank
      cases hblank
    · intro h
      rw [← Bool.not_eq_true]
      exact fun hblank => h last hblank (List.suffix_append _ _)

section

variable (h : parseGitUrl lib value = .ok url.kind)

include h

theorem rereadable_iff_scp (hform : value.includes "://".toList = false) :
    url.Rereadable ↔ ReadsBack lib value := by
  have htrim := (parseGitUrl_eq_ok.mp h).1.trimmed
  obtain ⟨user, host, path, hparts, hkind, -⟩ := scpParts_of_parse h hform
  obtain ⟨hostText, pathText, hvalue, hat, hcolon, -, hhost, -, hpath⟩ := hparts.rest
  obtain ⟨hne, hcomponents, -⟩ := parseRepositoryPath_eq_ok.mp hpath
  obtain ⟨init, last, hjoin, hlast⟩ := exists_last_ne_slash hne
    (fun component hc => (hcomponents component hc).ne_nil) fun c hc => component_no_slash hpath hc
  have hfront : value = user ++ '@' :: (hostText ++ [':']) ++ pathText := by
    rw [hvalue]
    simp
  have hshape := pathText_eq hpath
  rw [hjoin] at hshape
  have hblank := last_blank_iff hlast (hfront ▸ htrim) hshape
  rw [← hfront] at hblank
  have hlastOnly : (∀ c ∈ (Text.joinWith '/' path).getLast?, Text.isWhitespace c = false) ↔
      Text.isWhitespace last = false := by
    rw [hjoin, List.getLast?_concat]
    simp
  rw [Rereadable, hkind]
  show (lib.displayHost host).startsWith '-' = false ∧ _ ↔ _
  rw [hlastOnly, hblank]
  constructor
  · rintro ⟨hoption, hplain⟩
    refine ⟨?_, ?_, fun _ => hplain⟩
    · intro _ _ hstandard
      rw [hform] at hstandard
      cases hstandard
    · intro user' hostText' pathText' host' _ hvalue' huser' hat' hcolon' hhost'
      obtain ⟨rfl, rfl, rfl⟩ := scp_parts_unique (hvalue.symm.trans hvalue')
        hparts.user_no_colon huser' hat hat' hcolon hcolon'
      obtain rfl := Option.some.inj (hhost.symm.trans hhost')
      exact hoption
  · intro hreads
    exact ⟨hreads.host user hostText pathText host hform hvalue hparts.user_no_colon hat hcolon
      hhost, hreads.no_blank hform⟩

theorem rereadable_iff : url.Rereadable ↔ ReadsBack lib value := by
  by_cases hform : value.includes "://".toList = true
  · exact rereadable_iff_standard h hform
  · exact rereadable_iff_scp h (Bool.eq_false_iff.mpr hform)

theorem path_components : ∀ component ∈ url.kind.path, IsRepositoryComponent component := by
  by_cases hform : value.includes "://".toList = true
  · obtain ⟨parsed, host, path, hparts, -, -, rfl⟩ := standardParts_of_parse h hform
    obtain ⟨segments, -, hpath⟩ := hparts.segments
    exact (parseRepositoryPath_eq_ok.mp hpath).2.1
  · obtain ⟨user, host, path, hparts, hkind, -⟩ :=
      scpParts_of_parse h (Bool.eq_false_iff.mpr hform)
    obtain ⟨hostText, pathText, -, -, -, -, -, -, hpath⟩ := hparts.rest
    rw [hkind]
    exact (parseRepositoryPath_eq_ok.mp hpath).2.1

end

/-- The text of an accepted URL is read as that URL just in the cases above, what it names decides
how it is written, and its path has no component that is empty or walks up. -/
theorem canonical_spelling (hlib : lib.Documented) (value : Text) (url : GitUrl lib)
    (h : new lib value = .ok url) :
    (new lib url.toText = .ok url ↔ ReadsBack lib value) ∧
    (∃ name, Names lib value name) ∧
    (∀ value' url' name, new lib value' = .ok url' → Names lib value name →
      Names lib value' name → url.toText = url'.toText) ∧
    ∀ component ∈ url.kind.path,
      component ≠ [] ∧ component ≠ ".".toList ∧ component ≠ "..".toList := by
  have hparse := new_eq_ok.mp h
  obtain ⟨hread, hrefused⟩ := parse_toText hlib url
  refine ⟨?_, exists_names hparse, ?_, fun component hc => ?_⟩
  · rw [new_eq_ok, ← rereadable_iff hparse]
    exact ⟨hrefused url.kind, hread⟩
  · intro value' url' name h' hname hname'
    rw [toText_of_names hparse hname, toText_of_names (new_eq_ok.mp h') hname']
  · have hcomponent := path_components hparse component hc
    exact ⟨hcomponent.ne_nil, hcomponent.ne_dots⟩

end GitUrl

namespace TrailingSlash

/-- The URL is accepted, and what is written for it is refused. -/
theorem blank_text_not_reread : urls.Documented ∧ GitUrl.new urls blankText = .ok blankUrl ∧
    GitUrl.new urls blankUrl.toText =
      .error ⟨"git@github.com:acme/units.git ".toList, .malformed⟩ := by
  refine ⟨urls_documented, GitUrl.new_eq_ok.mpr (by decide +kernel), by decide +kernel⟩

theorem canonical_spelling_blank :
    (GitUrl.new urls blankUrl.toText = .ok blankUrl ↔ ReadsBack urls blankText) ∧
    (∃ name, Names urls blankText name) ∧
    (∀ value' url' name, GitUrl.new urls value' = .ok url' → Names urls blankText name →
      Names urls value' name → blankUrl.toText = url'.toText) ∧
    ∀ component ∈ blankUrl.kind.path,
      component ≠ [] ∧ component ≠ ".".toList ∧ component ≠ "..".toList :=
  GitUrl.canonical_spelling urls_documented blankText blankUrl
    (GitUrl.new_eq_ok.mpr (by decide +kernel))

end TrailingSlash

end ProvenGraphcal
