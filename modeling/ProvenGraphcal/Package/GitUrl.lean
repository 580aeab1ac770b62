import Mathlib.Data.Char
import Mathlib.Data.List.DropRight
import Mathlib.Data.List.Infix
import ProvenGraphcal.Library.DistinctKeys

/-!
# Remote Git URLs

A Git URL is an HTTPS or SSH URL, or the scp-like form of one. URLs and hosts are read by a URL
library, which is a parameter; the splitting of the scp-like form and the checks of the parts are
the source's own.
-/

namespace ProvenGraphcal

open Checked

/-- A string as its Unicode scalar values. -/
abbrev Text := List Char

namespace Text

/-- The control characters: general category `Cc`. -/
def isControl (c : Char) : Bool :=
  c.toNat < 0x20 || (0x7f ≤ c.toNat && c.toNat < 0xa0)

/-- The Unicode property `White_Space`. -/
def isWhitespace (c : Char) : Bool :=
  (0x09 ≤ c.toNat && c.toNat ≤ 0x0d) || (0x2000 ≤ c.toNat && c.toNat ≤ 0x200a) ||
    c.toNat ∈ [0x20, 0x85, 0xa0, 0x1680, 0x2028, 0x2029, 0x202f, 0x205f, 0x3000]

def trim (value : Text) : Text :=
  (value.dropWhile isWhitespace).rdropWhile isWhitespace

def startsWith (value : Text) (c : Char) : Bool := value.head? == some c

def includes (value pattern : Text) : Bool := pattern <:+: value

/-- The text before and after the first occurrence of a character. -/
def splitOnce (value : Text) (c : Char) : Option (Text × Text) :=
  match value.dropWhile (· != c) with
  | [] => none
  | _ :: after => some (value.takeWhile (· != c), after)

/-- The text before and after the last occurrence of a character. -/
def rsplitOnce (value : Text) (c : Char) : Option (Text × Text) :=
  (splitOnce value.reverse c).map fun (after, before) => (before.reverse, after.reverse)

def joinWith (separator : Char) (components : List Text) : Text :=
  [separator].intercalate components

end Text

/-- A URL as the URL library reads it. -/
structure ParsedUrl (Host : Type) where
  scheme : Text
  username : Text
  password : Option Text
  host : Option Host
  port : Option UInt16
  pathSegments : Option (List Text)
  query : Option Text
  fragment : Option Text

/-- The URL library: its parsers of URLs and hosts, and how it writes a host. -/
structure UrlLibrary (Host : Type) where
  parseUrl : Text → Option (ParsedUrl Host)
  parseHost : Text → Option Host
  displayHost : Host → Text

inductive GitUrlErrorReason
  | empty
  | malformed
  | unsupportedScheme (scheme : Text)
  | queryOrFragment
  | missingHost
  | missingRepositoryPath
  | credentials
  | optionShaped
  deriving DecidableEq

inductive GitUrlKind (Host : Type)
  | https (host : Host) (port : Option UInt16) (path : List Text)
  | ssh (user : Option Text) (host : Host) (port : Option UInt16) (path : List Text)
  | scp (user : Text) (host : Host) (path : List Text)
  deriving DecidableEq

variable {Host : Type}

local instance lawfulText : LawfulBEq Text := inferInstance

def isAmbiguousRawPathComponent (component : Text) : Bool :=
  let component := (component.takeWhile fun c => c != '?' && c != '#').map Char.toLower
  Text.includes component "%2f".toList || Text.includes component "%5c".toList ||
    component ∈ [".".toList, "..".toList, "%2e".toList, "%2e%2e".toList, ".%2e".toList,
      "%2e.".toList]

def rejectOptionShaped (value : Text) : Except GitUrlErrorReason Unit :=
  reject (value.startsWith '-') .optionShaped

def parseRequiredSshUser (value : Text) : Except GitUrlErrorReason Text := do
  reject (value.isEmpty || value.elem '@') .malformed
  rejectOptionShaped value
  return value

def parseSshUser (value : Text) : Except GitUrlErrorReason (Option Text) :=
  if value.isEmpty then .ok none else some <$> parseRequiredSshUser value

def parseRepositoryPathComponent (component : Text) : Except GitUrlErrorReason Text :=
  if component.isEmpty || isAmbiguousRawPathComponent component then .error .malformed
  else do
    rejectOptionShaped component
    return component

/-- A trailing slash leaves an empty last component, which is dropped. -/
def parseRepositoryPath (components : List Text) : Except GitUrlErrorReason (List Text) :=
  let components := if components.getLast? = some [] then components.dropLast else components
  if components.isEmpty then .error .missingRepositoryPath
  else components.mapM parseRepositoryPathComponent

def parseStandardGitUrl (lib : UrlLibrary Host) (value : Text) :
    Except GitUrlErrorReason (GitUrlKind Host) := do
  let parsed ← (lib.parseUrl value).elim (throw .malformed) pure
  reject (parsed.scheme ≠ "https".toList ∧ parsed.scheme ≠ "ssh".toList)
    (.unsupportedScheme parsed.scheme)
  reject (parsed.query.isSome || parsed.fragment.isSome) .queryOrFragment
  let host ← parsed.host.elim (throw .missingHost) pure
  rejectOptionShaped (lib.displayHost host)
  let segments ← parsed.pathSegments.elim (throw .missingRepositoryPath) pure
  let path ← parseRepositoryPath segments
  if parsed.scheme = "https".toList then do
    reject (!parsed.username.isEmpty || parsed.password.isSome) .credentials
    return .https host parsed.port path
  else do
    reject parsed.password.isSome .credentials
    let user ← parseSshUser parsed.username
    return .ssh user host parsed.port path

def parseScpGitUrl (lib : UrlLibrary Host) (value : Text) :
    Except GitUrlErrorReason (GitUrlKind Host) := do
  let (authority, path) ← (value.splitOnce ':').elim (throw .malformed) pure
  reject (authority.isEmpty || path.startsWith '/') .malformed
  let (user, hostText) ←
    match authority.rsplitOnce '@' with
    | some pair => pure pair
    | none => if path.elem '@' then throw .credentials else throw .malformed
  reject (hostText.elem '@') .malformed
  rejectOptionShaped hostText
  let host ← (lib.parseHost hostText).elim (throw .malformed) pure
  let user ← parseRequiredSshUser user
  let path ← parseRepositoryPath (path.splitOn '/')
  return .scp user host path

/-- `GitUrl::new`, up to the wrapping of the kind. -/
def parseGitUrl (lib : UrlLibrary Host) (value : Text) :
    Except GitUrlErrorReason (GitUrlKind Host) :=
  if value.isEmpty then .error .empty
  else if value.trim ≠ value || value.any Text.isControl || value.elem '\\' ||
      (value.splitOn '/').any isAmbiguousRawPathComponent then .error .malformed
  else if value.startsWith '-' then .error .optionShaped
  else if value.includes "://".toList then parseStandardGitUrl lib value
  else parseScpGitUrl lib value

/-- A URL that the parser accepted, in its typed parts. -/
structure GitUrl (lib : UrlLibrary Host) where
  kind : GitUrlKind Host
  parsed : ∃ value, parseGitUrl lib value = .ok kind

namespace GitUrl

variable {lib : UrlLibrary Host}

theorem ext_kind {url url' : GitUrl lib} (h : url.kind = url'.kind) : url = url' := by
  cases url
  cases url'
  congr

instance [DecidableEq Host] : DecidableEq (GitUrl lib) := fun url url' =>
  decidable_of_iff (url.kind = url'.kind) ⟨ext_kind, congrArg kind⟩

structure Error where
  value : Text
  reason : GitUrlErrorReason
  deriving DecidableEq

def new (lib : UrlLibrary Host) (value : Text) : Except Error (GitUrl lib) :=
  match h : parseGitUrl lib value with
  | .ok kind => .ok ⟨kind, value, h⟩
  | .error reason => .error ⟨value, reason⟩

theorem new_eq_ok {value : Text} {url : GitUrl lib} :
    new lib value = .ok url ↔ parseGitUrl lib value = .ok url.kind := by
  unfold new
  split
  case h_1 kind h =>
    refine ⟨fun hurl => ?_, fun hkind => ?_⟩
    · cases hurl
      exact h
    · exact congrArg Except.ok (ext_kind (Except.ok.inj (h.symm.trans hkind)))
  case h_2 reason h =>
    rw [h]
    exact ⟨nofun, nofun⟩

def displayPort : Option UInt16 → Text
  | none => []
  | some port => ':' :: (toString port.toNat).toList

def toText (url : GitUrl lib) : Text :=
  match url.kind with
  | .https host port path =>
    "https://".toList ++ lib.displayHost host ++ displayPort port ++ "/".toList ++
      Text.joinWith '/' path
  | .ssh user host port path =>
    "ssh://".toList ++ (user.elim [] fun user => user ++ "@".toList) ++ lib.displayHost host ++
      displayPort port ++ "/".toList ++ Text.joinWith '/' path
  | .scp user host path =>
    user ++ "@".toList ++ lib.displayHost host ++ ":".toList ++ Text.joinWith '/' path

end GitUrl

end ProvenGraphcal
