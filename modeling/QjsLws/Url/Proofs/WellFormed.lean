import QjsLws.Url.Proofs.Host
import QjsLws.Url.Proofs.Run

/-!
# Well-formed records

What every record that the parser returns has in common. `UrlSafe` keeps the parts of a URL apart;
`UrlStable` adds what the parser normalizes when it reads a URL from its text.
-/

namespace QjsLws.Url

open QjsLws.Misc ParserInput

/-- Text without characters that the set encodes. -/
def Encoded (extraSet : List Nat) (t : Text) : Prop := ∀ c ∈ t, copied extraSet c = true

/-- A scheme: a lower-case letter and scheme characters that are not upper-case. -/
structure SchemeOk (scheme : Text) : Prop where
  first : ∃ c rest, scheme = c :: rest ∧ c.isAlpha = true
  chars : ∀ c ∈ scheme, isSchemeChar c = true ∧ c.toLower = c

/-- A host that fits the scheme; a file URL may have the empty one. -/
def HostFor (native : Native) (scheme : Text) (h : Host) : Prop :=
  HostOk native (isSpecialScheme scheme) h ∨ isFile scheme = true ∧ h = .text []

/-- The scheme and the authority. -/
structure AuthorityOk (native : Native) (scheme username password : Text) (host : Option Host)
    (port : Option Nat) : Prop where
  schemeOk : SchemeOk scheme
  usernameOk : Encoded userinfoExtra username
  passwordOk : Encoded userinfoExtra password
  hostOk : ∀ h, host = some h → HostFor native scheme h
  hostless : host = none → isSpecialScheme scheme = false
  bare : isFile scheme = true ∨ host = none ∨ host = some (.text []) →
    username = [] ∧ password = [] ∧ port = none
  portOk : ∀ p, port = some p → p ≤ 65535 ∧ defaultPort scheme ≠ some p

/-- A segment of a list path. -/
structure SegmentOk (native : Native) (special : Bool) (segment : Text) : Prop where
  encoded : Encoded pathExtra segment
  slash : '/' ∉ segment
  backslash : special = true → '\\' ∉ segment
  single : isSingleDotSegment native segment = false
  double : isDoubleDotSegment native segment = false

/-- The path, with the scheme and the host it goes with. -/
def PathOk (native : Native) (scheme : Text) (host : Option Host) : UrlPath → Prop
  | .text t => isSpecialScheme scheme = false ∧ host = none ∧ Encoded c0Extra t ∧
      (∀ c ∈ t, c ≠ '?' ∧ c ≠ '#') ∧ t.head? ≠ some '/'
  | .segments path => (∀ s ∈ path, SegmentOk native (isSpecialScheme scheme) s) ∧
      (isSpecialScheme scheme = true ∨ host = none → path ≠ [])

/-- Every part of the record has only the characters that belong there. -/
structure UrlSafe (native : Native) (u : URLRecord) : Prop where
  authority : AuthorityOk native u.scheme u.username u.password u.host u.port
  path : PathOk native u.scheme u.host u.path
  query : ∀ q, u.query = some q → Encoded (querySet u) q
  fragment : ∀ f, u.fragment = some f → Encoded fragmentExtra f

/-- The first segment of a file path is no drive letter with a bar. -/
def DriveOk (scheme : Text) (path : List Text) : Prop :=
  isFile scheme = true → ∀ s, path.head? = some s → isWindowsDriveLetter s = true →
    isNormalizedWindowsDriveLetter s = true

/-- A file host is not `localhost`. -/
def LocalOk (scheme : Text) (host : Option Host) : Prop :=
  isFile scheme = true → host ≠ some (.text "localhost".toList)

/-- What reading a URL normalizes: drive letters, `localhost`, and trailing spaces. -/
structure UrlStable (u : URLRecord) : Prop where
  localhost : LocalOk u.scheme u.host
  drive : ∀ path, u.path = .segments path → DriveOk u.scheme path
  trailing : ∀ t, u.path = .text t → t.getLast? = some ' ' → u.query ≠ none ∨ u.fragment ≠ none

/-- The records that are read back. -/
structure UrlOk (native : Native) (u : URLRecord) : Prop where
  safe : UrlSafe native u
  stable : UrlStable u

section Parts

variable {native : Native} {scheme : Text} {path : List Text}

theorem encoded_nil {extraSet : List Nat} : Encoded extraSet [] := fun _ member => by cases member

theorem Encoded.append {extraSet : List Nat} {t u : Text} (first : Encoded extraSet t)
    (second : Encoded extraSet u) : Encoded extraSet (t ++ u) :=
  fun c member => (List.mem_append.mp member).elim (first c) (second c)

theorem encoded_encode {extraSet : List Nat} (keeps : KeepsEscapes extraSet) (t : Text) :
    Encoded extraSet (utf8PercentEncode t extraSet) := copied_of_mem_encode keeps

theorem isSpecialScheme_file : isSpecialScheme "file".toList = true := by decide

theorem isFile_iff {scheme : Text} : isFile scheme = true ↔ scheme = "file".toList := by
  simp [isFile]

theorem isSpecialScheme_of_isFile {scheme : Text} (file : isFile scheme = true) :
    isSpecialScheme scheme = true := by
  rw [isFile_iff.mp file]
  exact isSpecialScheme_file

theorem shortenSegments_prefix (scheme : Text) (path : List Text) :
    shortenSegments scheme path <+: path := by
  unfold shortenSegments
  split
  · split
    · exact List.prefix_rfl
    · exact List.nil_prefix
  · exact List.dropLast_prefix path

theorem DriveOk.of_isPrefix {sub : List Text} (ok : DriveOk scheme path) (le : sub <+: path) :
    DriveOk scheme sub := by
  intro file s first
  obtain ⟨rest, rfl⟩ := le
  apply ok file s
  cases sub with
  | nil => cases first
  | cons a sub => exact first

theorem driveOk_nil : DriveOk scheme [] := fun _ s first => by cases first

/-- Adding a segment: only the first one is looked at. -/
theorem DriveOk.push {segment : Text} (ok : DriveOk scheme path)
    (fine : path = [] → isFile scheme = true → isWindowsDriveLetter segment = true →
      isNormalizedWindowsDriveLetter segment = true) : DriveOk scheme (path ++ [segment]) := by
  intro file s first drive
  cases path with
  | nil =>
    cases first
    exact fine rfl file drive
  | cons a rest => exact ok file s first drive

end Parts

end QjsLws.Url
