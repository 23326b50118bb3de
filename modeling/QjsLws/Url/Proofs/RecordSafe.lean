import QjsLws.Url.Proofs.Setters
import QjsLws.Url.Proofs.Numeric

/-!
# Records are safe in every run

No part of a record holds a character that another part could be cut at, in every state of a `URL`
object, as long as no file URL is given a port.
-/

namespace QjsLws.Url

open QjsLws.Misc ParserInput UrlObject

/-- An ASCII control character. -/
def IsControl (c : Char) : Prop := c.toNat ≤ 0x1f ∨ c.toNat = 0x7f

/-- The texts of a record. A numeric host has none. -/
def components (u : URLRecord) : List Text :=
  [u.scheme, u.username, u.password]
    ++ (match u.host with
      | some (.text name) => [name]
      | _ => [])
    ++ (match u.path with
      | .text t => [t]
      | .segments l => l)
    ++ u.query.toList ++ u.fragment.toList

/-- `.` and `..` in every spelling, in lower case. -/
def dotSegments : List Text :=
  [".", "%2e", "..", ".%2e", "%2e.", "%2e%2e"].map String.toList

/-- The characters and numbers of a record are where they belong. -/
structure RecordSafe (u : URLRecord) : Prop where
  username : Encoded userinfoExtra u.username
  password : Encoded userinfoExtra u.password
  segments : ∀ l, u.path = .segments l → ∀ s ∈ l, Encoded pathExtra s
  query : ∀ q, u.query = some q → Encoded (querySet u) q
  fragment : ∀ f, u.fragment = some f → Encoded fragmentExtra f
  control : ∀ t ∈ components u, ∀ c ∈ t, ¬IsControl c
  dots : ∀ l, u.path = .segments l → ∀ s ∈ l, asciiLower s ∉ dotSegments
  slashes : ∀ l, u.path = .segments l → ∀ s ∈ l, '/' ∉ s ∧ (isSpecial u = true → '\\' ∉ s)
  port : ∀ p, u.port = some p → p ≤ 65535 ∧ defaultPort u.scheme ≠ some p
  bare : isFile u.scheme = true ∨ u.host = none ∨ u.host = some (.text []) →
    u.username = [] ∧ u.password = [] ∧ u.port = none

section Safe

variable {native : Native} {u : URLRecord}

theorem not_control_of_encoded {extraSet : List Nat} {t : Text} (encoded : Encoded extraSet t) :
    ∀ c ∈ t, ¬IsControl c := by
  intro c member
  have range := control_of_copied (encoded c member)
  unfold IsControl
  omega

theorem not_control_of_scheme {scheme : Text} (ok : SchemeOk scheme) : ∀ c ∈ scheme, ¬IsControl c := by
  intro c member
  have char := (ok.chars c member).1
  have range : 0x1f < c.toNat ∧ c.toNat < 0x7f :=
    forall_ascii (P := fun c => isSchemeChar c = true → 0x1f < c.toNat ∧ c.toNat < 0x7f) (by decide)
      (toLower_schemeChar char).1 char
  unfold IsControl
  omega

theorem not_control_of_host {special : Bool} {name : Text}
    (ok : HostOk native special (.text name)) : ∀ c ∈ name, ¬IsControl c := by
  cases ok with
  | domain _ _ _ allowed _ =>
    intro c member
    have fine := allowed c member
    simp only [forbiddenInDomain, Bool.or_eq_false_iff, decide_eq_false_iff_not] at fine
    unfold IsControl
    omega
  | plain _ _ encoded => exact not_control_of_encoded encoded

/-- A segment that is no dot segment to the parser is none in any spelling. -/
theorem not_dotSegment (lawful : native.Lawful) {special : Bool} {s : Text}
    (ok : SegmentOk native special s) : asciiLower s ∉ dotSegments := by
  have lower : native.toLowerCase s = asciiLower s :=
    lawful.toLowerCase_ascii s fun c member => ascii_of_copied (ok.encoded c member)
  have single := ok.single
  have double := ok.double
  simp only [isSingleDotSegment, isDoubleDotSegment, lower, Bool.or_eq_false_iff,
    decide_eq_false_iff_not, List.contains_eq_mem] at single double
  have dot : asciiLower s ≠ ".".toList := by
    intro same
    obtain ⟨c, rfl, dotted⟩ := List.map_eq_singleton_iff.mp same
    have ascii : c.toNat < 128 := ascii_of_copied (ok.encoded c List.mem_cons_self)
    have plain : c = '.' :=
      forall_ascii (P := fun c => c.toLower = '.' → c = '.') (by decide) ascii dotted
    exact single.1 (by rw [plain]; rfl)
  intro member
  simp only [dotSegments, List.map_cons, List.map_nil, List.mem_cons, List.not_mem_nil, or_false]
    at member double
  rcases member with same | same | same | same | same | same
  · exact dot same
  · exact single.2 same
  · exact double (.inl same)
  · exact double (.inr (.inl same))
  · exact double (.inr (.inr (.inl same)))
  · exact double (.inr (.inr (.inr same)))

theorem UrlSafe.recordSafe (lawful : native.Lawful) (safe : UrlSafe native u) : RecordSafe u := by
  have ok := safe.authority
  have listed : ∀ l, u.path = .segments l →
      ∀ s ∈ l, SegmentOk native (isSpecialScheme u.scheme) s := by
    intro l path s member
    have all := safe.path
    rw [path] at all
    exact all.1 s member
  refine ⟨ok.usernameOk, ok.passwordOk, fun l path s member => (listed l path s member).encoded,
    safe.query, safe.fragment, ?_, fun l path s member => not_dotSegment lawful (listed l path s member),
    fun l path s member => ⟨(listed l path s member).slash, (listed l path s member).backslash⟩,
    ok.portOk, ok.bare⟩
  intro t member
  simp only [components, List.mem_append, List.mem_cons, List.not_mem_nil, or_false,
    Option.mem_toList] at member
  rcases member with ((((rfl | rfl | rfl) | inHost) | inPath) | inQuery) | inFragment
  · exact not_control_of_scheme ok.schemeOk
  · exact not_control_of_encoded ok.usernameOk
  · exact not_control_of_encoded ok.passwordOk
  · split at inHost
    · rename_i name host
      rw [List.mem_singleton.mp inHost]
      rcases ok.hostOk _ host with fits | ⟨-, empty⟩
      · exact not_control_of_host fits
      · cases empty
        simp
    · cases inHost
  · split at inPath
    · rename_i t' path
      have opaquePath := safe.path
      rw [path] at opaquePath
      rw [List.mem_singleton.mp inPath]
      exact not_control_of_encoded opaquePath.2.2.1
    · rename_i l path
      exact not_control_of_encoded (listed l path t inPath).encoded
  · exact not_control_of_encoded (safe.query t inQuery)
  · exact not_control_of_encoded (safe.fragment t inFragment)

/-- Every record of a run is safe exactly when no file URL is assigned a host with a port. -/
theorem recordSafe_iff (lawful : native.Lawful) {o : UrlObject} (parsed : Parsed native o.record)
    (ops : List Op) :
    (∀ first, first <+: ops → RecordSafe (runFrom (step native) o first).record) ↔
      Along (step native) (fun o op => ¬FilePort native o op) o ops := by
  have keeps : ∀ (s : UrlObject) (op : Op), UrlSafe native s.record → ¬FilePort native s op →
      UrlSafe native (step native s op).record := by
    intro s op safe slip
    exact safe.leaves lawful (leaves_step lawful) slip
  have needs : ∀ (s : UrlObject) (op : Op), UrlSafe native s.record →
      RecordSafe (step native s op).record → ¬FilePort native s op := by
    intro s op safe next slip
    obtain ⟨file, port⟩ := port_of_filePort lawful safe slip
    exact port (next.bare (.inl file)).2.2
  exact @prefixes_iff_along _ _ (step native) (fun o op => ¬FilePort native o op)
    (fun o => UrlSafe native o.record) (fun o => RecordSafe o.record) keeps needs
    (fun _ safe => safe.recordSafe lawful) ops o (parsed.urlOk lawful).safe

theorem parsed_fileUrl : Parsed numericNative fileUrl :=
  .intro "file://h/x".toList none (fun b no => by cases no) (by decide +kernel)

/-- `url.host = 'h:80'` gives a file URL a port. -/
theorem file_url_gets_port :
    numericNative.Lawful ∧ Parsed numericNative fileUrl ∧
      ((⟨fileUrl, []⟩ : UrlObject).step numericNative (.host "h:80".toList)).record
        = { fileUrl with port := some 80 } ∧
      ¬RecordSafe ((⟨fileUrl, []⟩ : UrlObject).step numericNative (.host "h:80".toList)).record := by
  have result : ((⟨fileUrl, []⟩ : UrlObject).step numericNative (.host "h:80".toList)).record
      = { fileUrl with port := some 80 } := by decide +kernel
  refine ⟨lawful_numericNative, parsed_fileUrl, result, ?_⟩
  rw [result]
  intro safe
  cases (safe.bare (.inl rfl)).2.2

theorem recordSafe_exampleUrl :
    Parsed numericNative exampleUrl ∧
      ∀ first, first <+: [.host "a:81".toList, .pathname "/b".toList] →
        RecordSafe (runFrom (step numericNative) ⟨exampleUrl, []⟩ first).record := by
  refine ⟨parsed_exampleUrl, (recordSafe_iff lawful_numericNative parsed_exampleUrl _).mpr ?_⟩
  refine ⟨?_, id, trivial⟩
  rintro ⟨file, -⟩
  cases file

end Safe

end QjsLws.Url
