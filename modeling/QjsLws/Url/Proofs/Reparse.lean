import QjsLws.Url.Proofs.Setters
import QjsLws.Url.Proofs.Numeric

/-!
# URLs are read back in every run

Which operations keep a `URL` object whose `href` is parsed to the record behind it, and which
leave one that is not.
-/

namespace QjsLws.Url

open QjsLws.Misc ParserInput UrlObject

/-- The `href` of the record is parsed to the record. -/
def Reparses (native : Native) (u : URLRecord) : Prop :=
  parseURL native (serializeURL native u false) none = some (u, .record)

/-- No IPv6 address that is written with a dot. -/
def Undotted (native : Native) (u : URLRecord) : Prop :=
  ∀ h, u.host = some h → ¬WrittenDotted native h

/-- The host that an operation puts into the record. -/
def newHost (native : Native) (o : UrlObject) : Op → Option Host
  | .href value =>
    match parseURL native value none with
    | some (u, .record) => u.host
    | _ => none
  | .host value => if o.record.opaquePath then none else assignedHost native o.record false value
  | .hostname value => if o.record.opaquePath then none else assignedHost native o.record true value
  | _ => none

/-- What makes a URL with another scheme a file URL that the parser changes. -/
def UnstableAsFile (u : URLRecord) : Prop :=
  u.host = some (.text "localhost".toList) ∨
    ∃ s rest, u.path = .segments (s :: rest) ∧ isWindowsDriveLetter s = true ∧
      isNormalizedWindowsDriveLetter s = false

/-- An operation after which neither a query nor a fragment follows the path. -/
def RemovesTail (o : UrlObject) : Op → Prop
  | .search value => value = [] ∧ o.record.fragment = none
  | .hash value => value = [] ∧ o.record.query = none
  | .searchParams call => call.apply o.list = [] ∧ o.record.fragment = none
  | _ => False

/-- The operations that leave a record that is not read back. -/
inductive Slip (native : Native) (o : UrlObject) : Op → Prop
  | dotted (op : Op) (h : Host) (assigned : newHost native o op = some h)
    (written : WrittenDotted native h) : Slip native o op
  | host (value : Text) (file : isFile o.record.scheme = true)
    (assigned : assignedHost native o.record false value = some (.text "localhost".toList)) :
    Slip native o (.host value)
  | hostname (value : Text) (file : isFile o.record.scheme = true)
    (assigned : assignedHost native o.record true value = some (.text "localhost".toList)) :
    Slip native o (.hostname value)
  | port (op : Op) (slip : FilePort native o op) : Slip native o op
  | protocol (value : Text)
    (leading : leadingScheme (preprocess (value ++ [':'])) = some "file".toList)
    (special : isSpecial o.record = true) (credentials : includesCredentials o.record = false)
    (port : o.record.port = none) (unstable : UnstableAsFile o.record) :
    Slip native o (.protocol value)
  | trailing (op : Op) (t : Text) (path : o.record.path = .text t) (space : t.getLast? = some ' ')
    (removes : RemovesTail o op) : Slip native o op

section Steps

variable {native : Native} {u : URLRecord} {o : UrlObject} {op : Op}

/-- Exactly the well-formed records without a dotted IPv6 address are read back. -/
theorem reparses_iff (lawful : native.Lawful) :
    Reparses native u ↔ UrlOk native u ∧ Undotted native u := by
  constructor
  · intro back
    have ok : UrlOk native u := urlOk_of_parseURL lawful (by simp) back
    refine ⟨ok, fun h host written => ?_⟩
    obtain ⟨url, null⟩ := parseURL_writtenDotted lawful ok host written none
    rw [back] at null
    cases null
  · rintro ⟨ok, undotted⟩
    exact parseURL_serializeURL lawful ok undotted none

/-- Only a scheme, a host or a path changes what the parser normalizes. -/
theorem UrlStable.of_parts {v : URLRecord} (stable : UrlStable u) (scheme : v.scheme = u.scheme)
    (host : v.host = u.host) (path : v.path = u.path)
    (tail : ∀ t, u.path = .text t → t.getLast? = some ' ' → v.query ≠ none ∨ v.fragment ≠ none) :
    UrlStable v := by
  refine ⟨?_, ?_, ?_⟩
  · rw [scheme, host]
    exact stable.localhost
  · rw [scheme, path]
    exact stable.drive
  · rw [path]
    exact tail

theorem stable_withScheme {scheme : Text} (stable : UrlStable u)
    (fine : isFile scheme = true → isSpecial u = true → includesCredentials u = false →
      u.port = none → ¬UnstableAsFile u) : UrlStable (withScheme u scheme) := by
  obtain same | ⟨special, plain, -, changed⟩ := withScheme_cases u scheme
  · rw [same]
    exact stable
  · rw [changed]
    have quiet : isFile scheme = true → ¬UnstableAsFile u := by
      intro file
      refine fine file ?_ (plain file).1 (plain file).2
      rw [isSpecial, special]
      exact isSpecialScheme_of_isFile file
    refine ⟨?_, ?_, stable.trailing⟩
    · intro file host
      exact quiet file (.inl host)
    · intro path same file s first letter
      by_contra other
      cases path with
      | nil => cases first
      | cons s' rest =>
        cases first
        exact quiet file (.inr ⟨s, rest, same, letter, by simpa using other⟩)

theorem stable_hostAssigned {hostname : Bool} {value : Text} {url : URLRecord}
    (stable : UrlStable u) (list : u.opaquePath = false)
    (assigned : HostAssigned native u hostname value url)
    (fine : isFile u.scheme = true →
      assignedHost native u hostname value ≠ some (.text "localhost".toList)) : UrlStable url := by
  have noText : ∀ t, u.path ≠ .text t := by
    intro t path
    simp [URLRecord.opaquePath, path] at list
  cases assigned with
  | same => exact stable
  | host h assigned empty =>
    refine ⟨?_, stable.drive, fun t path => absurd path (noText t)⟩
    rintro file ⟨⟩
    exact fine file assigned
  | port h p assigned filled host number =>
    refine ⟨?_, stable.drive, fun t path => absurd path (noText t)⟩
    rintro file ⟨⟩
    exact fine file assigned

theorem undotted_hostAssigned {hostname : Bool} {value : Text} {url : URLRecord}
    (undotted : Undotted native u) (assigned : HostAssigned native u hostname value url)
    (fine : ∀ h, assignedHost native u hostname value = some h → ¬WrittenDotted native h) :
    Undotted native url := by
  cases assigned with
  | same => exact undotted
  | host h assigned empty =>
    rintro h' ⟨⟩
    exact fine h assigned
  | port h p assigned filled host number =>
    rintro h' ⟨⟩
    exact fine h assigned

/-- A query that is removed takes the tail of the URL with it, or a fragment stays. -/
theorem stable_tail {v : URLRecord} (stable : UrlStable u) (scheme : v.scheme = u.scheme)
    (host : v.host = u.host) (path : v.path = u.path)
    (kept : v.query = none → v.fragment = none →
      ∀ t, u.path = .text t → t.getLast? ≠ some ' ') : UrlStable v := by
  refine stable.of_parts scheme host path fun t text space => ?_
  by_contra bare
  rw [not_or, not_not, not_not] at bare
  exact kept bare.1 bare.2 t text space

theorem stable_leaves (lawful : native.Lawful) {url : URLRecord} (stable : UrlStable o.record)
    (leaves : Leaves native o op url) (fine : ¬Slip native o op) : UrlStable url := by
  have same : ∀ t, o.record.path = .text t → t.getLast? = some ' ' →
      o.record.query ≠ none ∨ o.record.fragment ≠ none := stable.trailing
  cases leaves with
  | same => exact stable
  | href value u parsed => exact (urlOk_of_parseURL lawful (by simp) parsed).stable
  | protocol value scheme leading =>
    apply stable_withScheme stable
    intro file special credentials port unstable
    rw [isFile_iff.mp file] at leading
    exact fine (.protocol value leading special credentials port unstable)
  | username value allowed => exact stable.of_parts rfl rfl rfl same
  | password value allowed => exact stable.of_parts rfl rfl rfl same
  | host value url list assigned =>
    exact stable_hostAssigned stable list assigned fun file localhost =>
      fine (.host value file localhost)
  | hostname value url list assigned =>
    exact stable_hostAssigned stable list assigned fun file localhost =>
      fine (.hostname value file localhost)
  | port value port allowed fits => exact stable.of_parts rfl rfl rfl same
  | pathname value l list ok filled =>
    refine ⟨stable.localhost, ?_, ?_⟩
    · rintro path ⟨⟩
      exact ok.drive
    · rintro t ⟨⟩
  | search value query encoded removed =>
    refine stable_tail stable rfl rfl rfl fun none bare t path space => ?_
    exact fine (.trailing _ t path space ⟨removed none, bare⟩)
  | hash value fragment encoded removed =>
    refine stable_tail stable rfl rfl rfl fun bare none t path space => ?_
    exact fine (.trailing _ t path space ⟨removed none, bare⟩)
  | searchParams call query encoded removed =>
    refine stable_tail stable rfl rfl rfl fun none bare t path space => ?_
    exact fine (.trailing _ t path space ⟨removed none, bare⟩)

theorem undotted_leaves {url : URLRecord} (undotted : Undotted native o.record)
    (leaves : Leaves native o op url) (fine : ¬Slip native o op) : Undotted native url := by
  cases leaves with
  | href value u parsed =>
    intro h host written
    refine fine (.dotted _ h ?_ written)
    rw [newHost, parsed]
    exact host
  | protocol value scheme leading =>
    obtain same | ⟨-, -, -, changed⟩ := withScheme_cases o.record scheme
    · rw [same]
      exact undotted
    · rw [changed]
      exact undotted
  | host value url list assigned =>
    refine undotted_hostAssigned undotted assigned fun h assigned written => ?_
    refine fine (.dotted _ h ?_ written)
    rw [newHost, list]
    exact assigned
  | hostname value url list assigned =>
    refine undotted_hostAssigned undotted assigned fun h assigned written => ?_
    refine fine (.dotted _ h ?_ written)
    rw [newHost, list]
    exact assigned
  | _ => exact undotted

/-- A new host is the host of the record. -/
theorem host_of_newHost {h : Host} (assigned : newHost native o op = some h)
    (filled : h ≠ .text []) : (o.step native op).record.host = some h := by
  cases op with
  | href value =>
    rw [newHost] at assigned
    split at assigned
    · rename_i u parsed
      rw [UrlObject.step, UrlObject.apply, UrlObject.setHref, parseOrThrow_of_parseURL parsed]
      dsimp only
      rw [loadList_record]
      exact assigned
    · cases assigned
  | host value =>
    rw [newHost] at assigned
    split at assigned
    · cases assigned
    · rename_i list
      rw [step_host (by simpa using list)]
      exact (hostRecord_host assigned filled).1
  | hostname value =>
    rw [newHost] at assigned
    split at assigned
    · cases assigned
    · rename_i list
      rw [step_hostname (by simpa using list)]
      exact (hostRecord_host assigned filled).1
  | _ => cases assigned

theorem filled_localhost : Host.text "localhost".toList ≠ .text [] := by decide

/-- A URL that becomes a file URL. -/
theorem step_protocol_file (lawful : native.Lawful) {value : Text}
    (leading : leadingScheme (preprocess (value ++ [':'])) = some "file".toList) :
    (o.step native (.protocol value)).record = withScheme o.record "file".toList := by
  rw [UrlObject.step, UrlObject.apply, UrlObject.setProtocol, override_record,
    parseInto_schemeStart lawful, leading]

theorem not_unstable (stable : UrlStable u) (file : isFile u.scheme = true) : ¬UnstableAsFile u := by
  rintro (host | ⟨s, rest, path, letter, other⟩)
  · exact stable.localhost file host
  · have normal := stable.drive _ path file s rfl letter
    rw [other] at normal
    cases normal

theorem withScheme_file (special : isSpecial u = true) (credentials : includesCredentials u = false)
    (port : u.port = none) (other : isFile u.scheme = false) :
    withScheme u "file".toList = { u with scheme := "file".toList } := by
  have same : isSpecial u = isSpecialScheme "file".toList := by
    rw [special]
    exact isSpecialScheme_file.symm
  rw [withScheme, if_neg (not_not.mpr same), if_neg (by simp [credentials, port]),
    if_neg (by simp [other])]
  simp [port]

/-- After a slip the record is not well-formed, or has a dotted address. -/
theorem not_ok_of_slip (lawful : native.Lawful) (ok : UrlOk native o.record)
    (slip : Slip native o op) :
    ¬(UrlOk native (o.step native op).record ∧ Undotted native (o.step native op).record) := by
  rintro ⟨next, undotted⟩
  cases slip with
  | dotted _ h assigned written =>
    have filled : h ≠ .text [] := by
      obtain ⟨address, rfl, -⟩ := written
      simp
    exact undotted h (host_of_newHost assigned filled) written
  | host value file assigned =>
    obtain ⟨host, scheme⟩ := hostRecord_host assigned filled_localhost
    rw [step_host (opaquePath_of_isFile ok.safe file)] at next
    exact next.stable.localhost (by rw [scheme]; exact file) host
  | hostname value file assigned =>
    obtain ⟨host, scheme⟩ := hostRecord_host assigned filled_localhost
    rw [step_hostname (opaquePath_of_isFile ok.safe file)] at next
    exact next.stable.localhost (by rw [scheme]; exact file) host
  | port _ slip =>
    obtain ⟨file, port⟩ := port_of_filePort lawful ok.safe slip
    exact port (next.safe.authority.bare (.inl file)).2.2
  | protocol value leading special credentials port unstable =>
    have other : isFile o.record.scheme = false := by
      by_contra file
      exact not_unstable ok.stable (by simpa using file) unstable
    rw [step_protocol_file lawful leading, withScheme_file special credentials port other] at next
    exact not_unstable next.stable (by exact isFile_file) unstable
  | trailing _ t path space removes =>
    have bare : (o.step native op).record.path = .text t ∧
        (o.step native op).record.query = none ∧ (o.step native op).record.fragment = none := by
      cases op with
      | search value =>
        obtain ⟨rfl, fragment⟩ := removes
        exact ⟨path, rfl, fragment⟩
      | hash value =>
        obtain ⟨rfl, query⟩ := removes
        exact ⟨path, query, rfl⟩
      | searchParams call =>
        obtain ⟨empty, fragment⟩ := removes
        refine ⟨path, ?_, fragment⟩
        simp [UrlObject.step, UrlObject.apply, UrlObject.update, empty,
          serializeFormURLEncoded_eq_nil]
      | _ => exact removes.elim
    rcases next.stable.trailing t bare.1 space with query | fragment
    · exact query bare.2.1
    · exact fragment bare.2.2

/-- Every state of a run is read back exactly when it starts without a dotted IPv6 address and no
operation slips. -/
theorem reparses_run_iff (lawful : native.Lawful) {url : Text} {base : Option Text}
    (made : newURL native url base = .ok o) (ops : List Op) :
    (∀ first, first <+: ops → Reparses native (runFrom (step native) o first).record) ↔
      Undotted native o.record ∧ Along (step native) (fun o op => ¬Slip native o op) o ops := by
  have ok := (newURL_eq_ok made).1.urlOk lawful
  have keeps : ∀ (s : UrlObject) (op : Op), UrlOk native s.record ∧ Undotted native s.record →
      ¬Slip native s op →
      UrlOk native (step native s op).record ∧ Undotted native (step native s op).record := by
    rintro s op ⟨ok, undotted⟩ fine
    have leaves : Leaves native s op (step native s op).record := leaves_step lawful
    exact ⟨⟨ok.safe.leaves lawful leaves fun slip => fine (.port op slip),
      stable_leaves lawful ok.stable leaves fine⟩, undotted_leaves undotted leaves fine⟩
  have needs : ∀ (s : UrlObject) (op : Op), UrlOk native s.record ∧ Undotted native s.record →
      Reparses native (step native s op).record → ¬Slip native s op := by
    rintro s op ⟨ok, -⟩ back slip
    exact not_ok_of_slip lawful ok slip ((reparses_iff lawful).mp back)
  have along : Undotted native o.record →
      ((∀ first, first <+: ops → Reparses native (runFrom (step native) o first).record) ↔
        Along (step native) (fun o op => ¬Slip native o op) o ops) := fun undotted =>
    @prefixes_iff_along _ _ (step native) (fun o op => ¬Slip native o op)
      (fun o => UrlOk native o.record ∧ Undotted native o.record)
      (fun o => Reparses native o.record) keeps needs
      (fun _ good => (reparses_iff lawful).mpr good) ops o ⟨ok, undotted⟩
  constructor
  · intro all
    have start : Reparses native o.record := all [] List.nil_prefix
    have undotted := ((reparses_iff lawful).mp start).2
    exact ⟨undotted, (along undotted).mp all⟩
  · rintro ⟨undotted, fine⟩
    exact (along undotted).mpr fine

end Steps

/-- The object of `new URL('file://h/x')`. -/
def fileObject : UrlObject := ⟨fileUrl, []⟩

theorem newURL_fileObject : newURL numericNative "file://h/x".toList none = .ok fileObject := by
  decide +kernel

/-- `url.host = 'localhost'` keeps a host that the parser replaces by the empty one. -/
theorem file_localhost_not_readBack :
    newURL numericNative "file://h/x".toList none = .ok fileObject ∧
      serializeURL numericNative
        (fileObject.step numericNative (.host "localhost".toList)).record false
        = "file://localhost/x".toList ∧
      parseURL numericNative "file://localhost/x".toList none
        = some ({ fileObject.record with host := some (.text []) }, .record) ∧
      ¬Reparses numericNative (fileObject.step numericNative (.host "localhost".toList)).record := by
  refine ⟨newURL_fileObject, by decide +kernel, by decide +kernel, ?_⟩
  unfold Reparses
  decide +kernel

theorem reparses_fileObject :
    newURL numericNative "file://h/x".toList none = .ok fileObject ∧
      ∀ first, first <+: [.hash "#f".toList, .search "?q".toList] →
        Reparses numericNative (runFrom (step numericNative) fileObject first).record := by
  have fine : ∀ (o : UrlObject) (value : Text), value ≠ [] →
      ¬Slip numericNative o (.hash value) ∧ ¬Slip numericNative o (.search value) := by
    intro o value nonempty
    constructor
    · rintro (⟨_, _, assigned, _⟩ | _ | _ | ⟨_, slip⟩ | _ | ⟨_, _, _, _, removes⟩)
      · cases assigned
      · exact slip
      · exact nonempty removes.1
    · rintro (⟨_, _, assigned, _⟩ | _ | _ | ⟨_, slip⟩ | _ | ⟨_, _, _, _, removes⟩)
      · cases assigned
      · exact slip
      · exact nonempty removes.1
  refine ⟨newURL_fileObject,
    (reparses_run_iff lawful_numericNative newURL_fileObject _).mpr ⟨?_, ?_, ?_, trivial⟩⟩
  · rintro h host ⟨address, rfl, -⟩
    cases host
  · exact (fine _ _ (by decide)).1
  · exact (fine _ _ (by decide)).2

end QjsLws.Url
