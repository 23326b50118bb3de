import QjsLws.Misc.Run
import QjsLws.Url.Proofs.Overrides
import QjsLws.Url.Proofs.SearchParams

/-!
# What the setters leave

Every record that an operation of a `URL` object can leave, and which of them keep the parts of the
URL apart.
-/

namespace QjsLws.Url

open QjsLws.Misc ParserInput

/-- The text of a host that is assigned, and what follows it. -/
def hostCut (u : URLRecord) (value : Text) : Text × Text :=
  cutHost (isSpecial u) false (preprocess value)

/-- The host that is assigned, unless it does not parse. `hostname` takes no port. -/
def assignedHost (native : Native) (u : URLRecord) (hostname : Bool) (value : Text) : Option Host :=
  if hostname ∧ (hostCut u value).2.head? = some ':' then none
  else
    match parseHost native (hostCut u value).1 (isSpecial u) with
    | .ok host => host
    | .error _ => none

/-- The port that is assigned with a host. -/
def assignedPort (u : URLRecord) (value : Text) : Option Nat :=
  match (hostCut u value).2 with
  | ':' :: rest =>
    let digits := rest.takeWhile Char.isDigit
    if digits ≠ [] ∧ parseInt 10 digits ≤ 65535 then some (parseInt 10 digits) else none
  | _ => none

/-- A port as the record keeps it. -/
def keptPort (scheme : Text) (p : Nat) : Option Nat :=
  if some p = defaultPort scheme then none else some p

/-- The record after an assignment to `host` or `hostname`. -/
def hostRecord (native : Native) (u : URLRecord) (hostname : Bool) (value : Text) : URLRecord :=
  (withHostText native u hostname (hostCut u value).1 (hostCut u value).2).1

/-- What an assignment to `host` or `hostname` can leave. -/
inductive HostAssigned (native : Native) (u : URLRecord) (hostname : Bool) (value : Text) :
    URLRecord → Prop
  | same : HostAssigned native u hostname value u
  | host (h : Host) (assigned : assignedHost native u hostname value = some h)
    (empty : h = .text [] → includesCredentials u = false ∧ u.port = none) :
    HostAssigned native u hostname value { u with host := some h }
  | port (h : Host) (p : Nat) (assigned : assignedHost native u hostname value = some h)
    (filled : h ≠ .text []) (host : hostname = false) (number : assignedPort u value = some p) :
    HostAssigned native u hostname value { u with host := some h, port := keptPort u.scheme p }

section Host

variable {native : Native} {u : URLRecord} {hostname : Bool} {value : Text} {h : Host}

theorem assignedHost_eq (assigned : assignedHost native u hostname value = some h) :
    parseHost native (hostCut u value).1 (isSpecial u) = .ok (some h) ∧
      ¬(hostname = true ∧ (hostCut u value).2.head? = some ':') := by
  unfold assignedHost at assigned
  split at assigned
  · cases assigned
  · rename_i colon
    split at assigned
    · rename_i found
      rw [found, assigned]
      exact ⟨rfl, colon⟩
    · cases assigned

theorem assignedHost_of_parseHost
    (parsed : parseHost native (hostCut u value).1 (isSpecial u) = .ok (some h))
    (colon : ¬(hostname = true ∧ (hostCut u value).2.head? = some ':')) :
    assignedHost native u hostname value = some h := by
  rw [assignedHost, if_neg colon, parsed]

theorem withPort_cases (u : URLRecord) (digits : Text) :
    (withPort u digits).1 = u ∨ digits ≠ [] ∧ parseInt 10 digits ≤ 65535 ∧
      (withPort u digits).1 = { u with port := keptPort u.scheme (parseInt 10 digits) } := by
  unfold withPort
  split
  · exact .inl rfl
  · rename_i filled
    split
    · exact .inl rfl
    · rename_i small
      exact .inr ⟨filled, Nat.le_of_not_lt small, rfl⟩

theorem withParsedHost_cases (native : Native) (u : URLRecord) (buffer : Text)
    (next : URLRecord → URLRecord × ParseEnd) :
    (withParsedHost native u buffer next).1 = u ∨
      ∃ h, parseHost native buffer (isSpecial u) = .ok (some h) ∧
        withParsedHost native u buffer next = next { u with host := some h } := by
  unfold withParsedHost
  split
  · exact .inl rfl
  · exact .inl rfl
  · rename_i h parsed
    exact .inr ⟨h, parsed, rfl⟩

theorem hostAssigned_hostRecord (lawful : native.Lawful) :
    HostAssigned native u hostname value (hostRecord native u hostname value) := by
  unfold hostRecord
  by_cases colon : (hostCut u value).2.head? = some ':'
  · obtain ⟨rest, after⟩ : ∃ rest, (hostCut u value).2 = ':' :: rest := List.head?_eq_some_iff.mp colon
    rw [after, withHostText]
    split
    · exact .same
    · rename_i filled
      split
      · exact .same
      · rename_i host
        obtain same | ⟨h, parsed, result⟩ := withParsedHost_cases native u (hostCut u value).1
          fun u => withPort u (rest.takeWhile Char.isDigit)
        · rw [same]
          exact .same
        · have assigned : assignedHost native u hostname value = some h :=
            assignedHost_of_parseHost parsed fun both => host both.1
          have other := parseHost_ne_empty lawful filled parsed
          rw [result]
          obtain same | ⟨digits, small, ported⟩ := withPort_cases { u with host := some h }
            (rest.takeWhile Char.isDigit)
          · rw [same]
            exact .host h assigned fun empty => absurd empty other
          · rw [ported]
            refine .port h _ assigned other (by simpa using host) ?_
            rw [assignedPort, after]
            exact if_pos ⟨digits, small⟩
  · rw [withHostText_end colon]
    split
    · exact .same
    · split
      · exact .same
      · rename_i bare
        obtain same | ⟨h, parsed, result⟩ := withParsedHost_cases native u (hostCut u value).1
          fun u => (u, .record)
        · rw [same]
          exact .same
        · rw [result]
          refine .host h (assignedHost_of_parseHost parsed fun both => colon both.2) ?_
          intro empty
          have blank : (hostCut u value).1 = [] := by
            by_contra filled
            exact parseHost_ne_empty lawful filled parsed empty
          simpa [blank] using bare

/-- A host that parses is assigned, and then the port that follows it. -/
theorem hostRecord_eq (assigned : assignedHost native u hostname value = some h)
    (filled : h ≠ .text []) :
    (hostCut u value).2.head? ≠ some ':' ∧ hostRecord native u hostname value
        = { u with host := some h } ∨
      ∃ rest, (hostCut u value).2 = ':' :: rest ∧ hostRecord native u hostname value
        = (withPort { u with host := some h } (rest.takeWhile Char.isDigit)).1 := by
  obtain ⟨parsed, colon⟩ := assignedHost_eq assigned
  have buffer : (hostCut u value).1 ≠ [] := by
    intro blank
    rw [blank] at parsed
    cases special : isSpecial u with
    | true =>
      rw [special] at parsed
      cases parsed
    | false =>
      rw [special] at parsed
      cases parsed
      exact filled rfl
  have text : ∀ next, withParsedHost native u (hostCut u value).1 next
      = next { u with host := some h } := by
    intro next
    rw [withParsedHost, parsed]
  unfold hostRecord
  by_cases found : (hostCut u value).2.head? = some ':'
  · obtain ⟨rest, after⟩ : ∃ rest, (hostCut u value).2 = ':' :: rest := List.head?_eq_some_iff.mp found
    have host : hostname = false := by
      by_contra yes
      exact colon ⟨by simpa using yes, found⟩
    refine .inr ⟨rest, after, ?_⟩
    rw [after, withHostText, if_neg buffer, host, if_neg (by simp), text]
  · refine .inl ⟨found, ?_⟩
    rw [withHostText_end found, if_neg (by simp [buffer]), if_neg (by simp [buffer]), text]

theorem hostRecord_host (assigned : assignedHost native u hostname value = some h)
    (filled : h ≠ .text []) :
    (hostRecord native u hostname value).host = some h ∧
      (hostRecord native u hostname value).scheme = u.scheme := by
  obtain ⟨-, plain⟩ | ⟨rest, -, ported⟩ := hostRecord_eq assigned filled
  · rw [plain]
    exact ⟨rfl, rfl⟩
  · rw [ported]
    obtain same | ⟨-, -, changed⟩ := withPort_cases { u with host := some h }
      (rest.takeWhile Char.isDigit)
    · rw [same]
      exact ⟨rfl, rfl⟩
    · rw [changed]
      exact ⟨rfl, rfl⟩

theorem hostRecord_port (assigned : assignedHost native u false value = some h)
    (filled : h ≠ .text []) {p : Nat} (number : assignedPort u value = some p) :
    (hostRecord native u false value).port = keptPort u.scheme p := by
  unfold assignedPort at number
  split at number
  · rename_i rest after
    dsimp only at number
    split at number
    · rename_i fits
      cases number
      obtain ⟨other, -⟩ | ⟨rest', after', ported⟩ := hostRecord_eq assigned filled
      · rw [after] at other
        exact absurd rfl other
      · obtain rfl : rest = rest' := by
          rw [after] at after'
          simpa using after'
        rw [ported, withPort, if_neg fits.1, if_neg (Nat.not_lt.mpr fits.2)]
        rfl
    · cases number
  · cases number

end Host

section Leaves

variable {native : Native} {o : UrlObject} {op : UrlObject.Op}

/-- What an operation can leave of the record. -/
inductive Leaves (native : Native) (o : UrlObject) : UrlObject.Op → URLRecord → Prop
  | same (op : UrlObject.Op) : Leaves native o op o.record
  | href (value : Text) (u : URLRecord) (parsed : parseURL native value none = some (u, .record)) :
    Leaves native o (.href value) u
  | protocol (value scheme : Text)
    (leading : leadingScheme (preprocess (value ++ [':'])) = some scheme) :
    Leaves native o (.protocol value) (withScheme o.record scheme)
  | username (value : Text) (allowed : cannotHaveUsernamePasswordPort o.record = false) :
    Leaves native o (.username value)
      { o.record with username := utf8PercentEncode value userinfoExtra }
  | password (value : Text) (allowed : cannotHaveUsernamePasswordPort o.record = false) :
    Leaves native o (.password value)
      { o.record with password := utf8PercentEncode value userinfoExtra }
  | host (value : Text) (url : URLRecord) (list : o.record.opaquePath = false)
    (assigned : HostAssigned native o.record false value url) : Leaves native o (.host value) url
  | hostname (value : Text) (url : URLRecord) (list : o.record.opaquePath = false)
    (assigned : HostAssigned native o.record true value url) : Leaves native o (.hostname value) url
  | port (value : Text) (port : Option Nat)
    (allowed : cannotHaveUsernamePasswordPort o.record = false)
    (fits : ∀ p, port = some p → p ≤ 65535 ∧ defaultPort o.record.scheme ≠ some p) :
    Leaves native o (.port value) { o.record with port }
  | pathname (value : Text) (l : List Text) (list : o.record.opaquePath = false)
    (ok : ListOk native o.record l)
    (filled : isSpecial o.record = true ∨ o.record.host = none → l ≠ []) :
    Leaves native o (.pathname value) { o.record with path := .segments l }
  | search (value : Text) (query : Option Text)
    (encoded : ∀ q, query = some q → Encoded (querySet o.record) q)
    (removed : query = none → value = []) :
    Leaves native o (.search value) { o.record with query }
  | hash (value : Text) (fragment : Option Text)
    (encoded : ∀ f, fragment = some f → Encoded fragmentExtra f)
    (removed : fragment = none → value = []) :
    Leaves native o (.hash value) { o.record with fragment }
  | searchParams (call : UrlObject.ParamsOp) (query : Option Text)
    (encoded : ∀ q, query = some q → Encoded (querySet o.record) q)
    (removed : query = none → call.apply o.list = []) :
    Leaves native o (.searchParams call) { o.record with query }

@[simp] theorem override_record (value : Text) (state : ParserState) :
    (o.override native value state).state
      = { o with record := (parseInto native value none o.record (some state)).1 } := by
  unfold UrlObject.override
  split
  · rename_i found
    rw [found]
    rfl
  · rename_i found
    rw [found]
    rfl

theorem loadList_record : o.loadList.state.record = o.record := by
  unfold UrlObject.loadList
  split <;> rfl

theorem keptPort_fits {scheme : Text} {p : Nat} (small : p ≤ 65535) :
    ∀ q, keptPort scheme p = some q → q ≤ 65535 ∧ defaultPort scheme ≠ some q := by
  intro q kept
  unfold keptPort at kept
  split at kept
  · cases kept
  · rename_i other
    cases kept
    exact ⟨small, Ne.symm other⟩

theorem parseOrThrow_eq_ok {text : String} {value : Text} {base : Option URLRecord} {u : URLRecord}
    (parsed : parseOrThrow native text value base = .ok u) :
    parseURL native value base = some (u, .record) := by
  unfold parseOrThrow at parsed
  split at parsed
  · rename_i found
    cases parsed
    rw [parseURL, basicURLParse_eq, found]
  · cases parsed
  · cases parsed

theorem parseOrThrow_of_parseURL {value : Text} {base : Option URLRecord} {u : URLRecord}
    (parsed : parseURL native value base = some (u, .record)) (text : String) :
    parseOrThrow native text value base = .ok u := by
  rw [parseURL, basicURLParse_eq, Option.some.injEq] at parsed
  rw [parseOrThrow, parsed]

/-- What the constructor returns. -/
theorem newURL_eq_ok {url : Text} {base : Option Text} (made : newURL native url base = .ok o) :
    Parsed native o.record ∧ queryList o.record.query = .ok o.list := by
  have based : ∀ parsedBase, base.mapM (fun base =>
      parseOrThrow native "Invalid base URL: " base none) = .ok parsedBase →
      ∀ b, parsedBase = some b → Parsed native b := by
    rintro parsedBase read b rfl
    cases base with
    | none => cases read
    | some text =>
      change some <$> parseOrThrow native "Invalid base URL: " text none = _ at read
      cases found : parseOrThrow native "Invalid base URL: " text none with
      | error e => simp [found, Functor.map, Except.map] at read
      | ok b' =>
        simp only [found, Functor.map, Except.map, Except.ok.injEq, Option.some.injEq] at read
        subst read
        exact .intro text none (fun b no => by cases no) (parseOrThrow_eq_ok found)
  unfold newURL at made
  simp only [bind, Except.bind, pure, Except.pure] at made
  split at made
  · cases made
  · rename_i parsedBase readBase
    split at made
    · cases made
    · rename_i record parsed
      split at made
      · cases made
      · rename_i list read
        cases made
        exact ⟨.intro url parsedBase (based parsedBase readBase) (parseOrThrow_eq_ok parsed), read⟩

/-- The query that an assignment to `search` gives the record. -/
def searchQuery (u : URLRecord) (value : Text) : Text :=
  utf8PercentEncode (preprocess (UrlObject.withoutMark '?' value)) (querySet u)

theorem setSearch_eq {value : Text} (nonempty : value ≠ []) :
    o.setSearch native value
      = { o with record.query := some (searchQuery o.record value) }.loadList := by
  rw [UrlObject.setSearch, if_neg nonempty, UrlObject.override, parseInto_query]
  rfl

/-- The fragment that an assignment to `hash` gives the record. -/
def hashFragment (value : Text) : Text :=
  utf8PercentEncode (preprocess (UrlObject.withoutMark '#' value)) fragmentExtra

theorem setHash_eq {value : Text} (nonempty : value ≠ []) :
    o.setHash native value = .done { o with record.fragment := some (hashFragment value) } := by
  rw [UrlObject.setHash, if_neg nonempty, UrlObject.override, parseInto_fragment]
  rfl

theorem step_host {value : Text} (list : o.record.opaquePath = false) :
    o.step native (.host value)
      = { o with record := hostRecord native o.record false value } := by
  rw [UrlObject.step, UrlObject.apply, UrlObject.setHost, if_neg (by simp [list]), override_record,
    parseInto_host]
  rfl

theorem step_hostname {value : Text} (list : o.record.opaquePath = false) :
    o.step native (.hostname value)
      = { o with record := hostRecord native o.record true value } := by
  rw [UrlObject.step, UrlObject.apply, UrlObject.setHostname, if_neg (by simp [list]),
    override_record, parseInto_hostname]
  rfl

/-- The record after an operation is one of these. -/
theorem leaves_step (lawful : native.Lawful) : Leaves native o op (o.step native op).record := by
  unfold UrlObject.step
  cases op with
  | href value =>
    simp only [UrlObject.apply, UrlObject.setHref]
    split
    · rename_i u parsed
      rw [loadList_record]
      exact .href value u (parseOrThrow_eq_ok parsed)
    · exact .same _
  | protocol value =>
    simp only [UrlObject.apply, UrlObject.setProtocol, override_record,
      parseInto_schemeStart lawful]
    split
    · rename_i scheme leading
      exact .protocol value scheme leading
    · exact .same _
  | username value =>
    simp only [UrlObject.apply, UrlObject.setUsername]
    split
    · exact .same _
    · rename_i allowed
      exact .username value (by simpa using allowed)
  | password value =>
    simp only [UrlObject.apply, UrlObject.setPassword]
    split
    · exact .same _
    · rename_i allowed
      exact .password value (by simpa using allowed)
  | host value =>
    cases list : o.record.opaquePath with
    | true =>
      rw [UrlObject.apply, UrlObject.setHost, if_pos list]
      exact .same _
    | false =>
      rw [← UrlObject.step, step_host list]
      exact .host value _ list (hostAssigned_hostRecord lawful)
  | hostname value =>
    cases list : o.record.opaquePath with
    | true =>
      rw [UrlObject.apply, UrlObject.setHostname, if_pos list]
      exact .same _
    | false =>
      rw [← UrlObject.step, step_hostname list]
      exact .hostname value _ list (hostAssigned_hostRecord lawful)
  | port value =>
    simp only [UrlObject.apply, UrlObject.setPort]
    split
    · exact .same _
    · rename_i allowed
      have allowed : cannotHaveUsernamePasswordPort o.record = false := by simpa using allowed
      split
      · exact .port value none allowed (by simp)
      · rw [override_record, parseInto_port]
        obtain same | ⟨-, small, ported⟩ := withPort_cases o.record
          ((preprocess value).takeWhile Char.isDigit)
        · simp only [same]
          exact .same _
        · simp only [ported]
          exact .port value _ allowed (keptPort_fits small)
  | pathname value =>
    simp only [UrlObject.apply, UrlObject.setPathname]
    split
    · exact .same _
    · rename_i list
      obtain ⟨l, result, ok, filled⟩ := parseInto_pathStart (u := o.record) lawful value
      rw [override_record]
      simp only [result]
      exact .pathname value l (by simpa using list) ok filled
  | search value =>
    rw [UrlObject.apply]
    by_cases empty : value = []
    · rw [UrlObject.setSearch, if_pos empty]
      exact .search value none (by simp) fun _ => empty
    · rw [setSearch_eq empty, loadList_record]
      refine .search value (some _) ?_ (by simp)
      rintro q ⟨⟩
      exact encoded_encode (keepsEscapes_querySet o.record) _
  | hash value =>
    rw [UrlObject.apply]
    by_cases empty : value = []
    · rw [UrlObject.setHash, if_pos empty]
      exact .hash value none (by simp) fun _ => empty
    · rw [setHash_eq empty]
      refine .hash value (some _) ?_ (by simp)
      rintro f ⟨⟩
      exact encoded_encode keepsEscapes_fragmentExtra _
  | searchParams call =>
    rw [UrlObject.apply]
    refine .searchParams call _ ?_ ?_
    · intro q same
      split at same
      · cases same
      · cases same
        exact encoded_serialize o.record _
    · intro none
      split at none
      · rename_i empty
        exact serializeFormURLEncoded_eq_nil.mp empty
      · cases none

end Leaves

section Safe

variable {native : Native} {u : URLRecord} {h : Host}

theorem UrlSafe.withHost (safe : UrlSafe native u) (list : u.opaquePath = false)
    (fits : HostOk native (isSpecial u) h)
    (empty : h = .text [] → includesCredentials u = false ∧ u.port = none) :
    UrlSafe native { u with host := some h } where
  authority := by
    have ok := safe.authority
    refine ⟨ok.schemeOk, ok.usernameOk, ok.passwordOk, ?_, by simp, ?_, ok.portOk⟩
    · rintro h' ⟨⟩
      exact .inl fits
    · rintro (file | none | blank)
      · exact ok.bare (.inl file)
      · cases none
      · cases blank
        obtain ⟨credentials, port⟩ := empty rfl
        simp only [includesCredentials, Bool.or_eq_false_iff, decide_eq_false_iff_not, not_not]
          at credentials
        exact ⟨credentials.1, credentials.2, port⟩
  path := by
    cases path : u.path with
    | text t => simp [URLRecord.opaquePath, path] at list
    | segments l =>
      have ok := safe.path
      rw [path] at ok
      refine ⟨ok.1, ?_⟩
      rintro (special | none)
      · exact ok.2 (.inl special)
      · cases none
  query := safe.query
  fragment := safe.fragment

/-- A port fits where credentials do. -/
theorem UrlSafe.withPort (safe : UrlSafe native u)
    (bare : ¬(isFile u.scheme = true ∨ u.host = none ∨ u.host = some (.text [])))
    {port : Option Nat} (fits : ∀ p, port = some p → p ≤ 65535 ∧ defaultPort u.scheme ≠ some p) :
    UrlSafe native { u with port } where
  authority := by
    have ok := safe.authority
    exact ⟨ok.schemeOk, ok.usernameOk, ok.passwordOk, ok.hostOk, ok.hostless,
      fun yes => absurd yes bare, fits⟩
  path := safe.path
  query := safe.query
  fragment := safe.fragment

theorem UrlSafe.withCredentials (safe : UrlSafe native u)
    (bare : ¬(isFile u.scheme = true ∨ u.host = none ∨ u.host = some (.text [])))
    {username password : Text} (usernameOk : Encoded userinfoExtra username)
    (passwordOk : Encoded userinfoExtra password) :
    UrlSafe native { u with username, password } where
  authority := by
    have ok := safe.authority
    exact ⟨ok.schemeOk, usernameOk, passwordOk, ok.hostOk, ok.hostless,
      fun yes => absurd yes bare, ok.portOk⟩
  path := safe.path
  query := safe.query
  fragment := safe.fragment

theorem not_bare (allowed : cannotHaveUsernamePasswordPort u = false) :
    ¬(isFile u.scheme = true ∨ u.host = none ∨ u.host = some (.text [])) := by
  simp only [cannotHaveUsernamePasswordPort, Bool.or_eq_false_iff, decide_eq_false_iff_not] at allowed
  obtain ⟨⟨none, empty⟩, file⟩ := allowed
  rintro (yes | yes | yes)
  · rw [file] at yes
    cases yes
  · rw [yes] at none
    cases none
  · exact empty yes

theorem schemeOk_leadingScheme {cp scheme : Text} (leading : leadingScheme cp = some scheme) :
    SchemeOk scheme := by
  unfold leadingScheme at leading
  split at leading
  · rename_i found
    cases leading
    refine ⟨?_, ?_⟩
    · cases cp with
      | nil => simp at found
      | cons c t =>
        have alpha : c.isAlpha = true := by simpa [isASCIIAlpha] using found.1
        have char := isSchemeChar_of_isAlpha alpha
        rw [List.takeWhile_cons_of_pos char]
        exact ⟨c.toLower, _, rfl, (toLower_schemeChar char).2.2.2 alpha⟩
    · intro c member
      obtain ⟨d, inside, rfl⟩ := List.mem_map.mp member
      obtain ⟨-, char, lower, -⟩ := toLower_schemeChar (List.mem_takeWhile_imp inside)
      exact ⟨char, lower⟩
  · cases leading

theorem withScheme_cases (u : URLRecord) (scheme : Text) :
    withScheme u scheme = u ∨
      isSpecialScheme u.scheme = isSpecialScheme scheme ∧
        (isFile scheme = true → includesCredentials u = false ∧ u.port = none) ∧
        (isFile u.scheme = true → u.host ≠ some (.text []) ∧ u.host ≠ none) ∧
        withScheme u scheme
          = { u with scheme, port := if u.port = defaultPort scheme then none else u.port } := by
  unfold withScheme
  split
  · exact .inl rfl
  · rename_i same
    split
    · exact .inl rfl
    · rename_i plain
      split
      · exact .inl rfl
      · rename_i hosted
        refine .inr ⟨not_not.mp same, ?_, ?_, rfl⟩
        · intro file
          simpa [file] using plain
        · intro file
          simpa [file] using hosted

theorem UrlSafe.withScheme (safe : UrlSafe native u) {scheme : Text} (schemeOk : SchemeOk scheme) :
    UrlSafe native (withScheme u scheme) := by
  obtain unchanged | ⟨same, plain, hosted, changed⟩ := withScheme_cases u scheme
  · rw [unchanged]
    exact safe
  · have ok := safe.authority
    have noPort : u.port = none → (if u.port = defaultPort scheme then none else u.port) = none := by
      intro none
      simp [none]
    rw [changed]
    refine ⟨⟨schemeOk, ok.usernameOk, ok.passwordOk, ?_, ?_, ?_, ?_⟩, ?_, ?_, safe.fragment⟩
    · intro h host
      rcases ok.hostOk h host with fits | ⟨file, rfl⟩
      · rw [same] at fits
        exact .inl fits
      · exact absurd host (hosted file).1
    · intro none
      rw [← same]
      exact ok.hostless none
    · rintro (file | bare)
      · obtain ⟨credentials, port⟩ := plain file
        simp only [includesCredentials, Bool.or_eq_false_iff, decide_eq_false_iff_not, not_not]
          at credentials
        exact ⟨credentials.1, credentials.2, noPort port⟩
      · obtain ⟨username, password, port⟩ := ok.bare (.inr bare)
        exact ⟨username, password, noPort port⟩
    · intro p kept
      simp only at kept
      split at kept
      · cases kept
      · rename_i other
        refine ⟨(ok.portOk p kept).1, ?_⟩
        rw [← kept]
        exact Ne.symm other
    · have path := safe.path
      unfold PathOk at path ⊢
      rw [same] at path
      exact path
    · have set : querySet { u with
          scheme
          port := if u.port = defaultPort scheme then none else u.port } = querySet u := by
        rw [querySet, querySet, isSpecial, isSpecial, same]
      rw [set]
      exact safe.query

/-- A port on a file URL, assigned with a host. -/
def FilePort (native : Native) (o : UrlObject) : UrlObject.Op → Prop
  | .host value => isFile o.record.scheme = true ∧
      (assignedHost native o.record false value).isSome = true ∧
      (assignedPort o.record value).isSome = true
  | _ => False

theorem UrlSafe.hostAssigned {hostname : Bool} {value : Text} {url : URLRecord}
    (lawful : native.Lawful) (safe : UrlSafe native u) (list : u.opaquePath = false)
    (assigned : HostAssigned native u hostname value url)
    (file : hostname = false → isFile u.scheme = true →
      (assignedHost native u hostname value).isSome = true →
      (assignedPort u value).isSome = true → False) : UrlSafe native url := by
  cases assigned with
  | same => exact safe
  | host h assigned empty =>
    exact safe.withHost list (hostOk_of_parseHost lawful (assignedHost_eq assigned).1) empty
  | port h p assigned filled host number =>
    have hosted := safe.withHost list (hostOk_of_parseHost lawful (assignedHost_eq assigned).1)
      fun empty => absurd empty filled
    have small : p ≤ 65535 := by
      unfold assignedPort at number
      split at number
      · dsimp only at number
        split at number
        · rename_i fits
          cases number
          exact fits.2
        · cases number
      · cases number
    refine hosted.withPort ?_ (keptPort_fits small)
    rintro (yes | none | blank)
    · exact file host yes (by rw [assigned]; rfl) (by rw [number]; rfl)
    · cases none
    · cases blank
      exact filled rfl

/-- An operation keeps the parts of the URL apart, unless it gives a file URL a port. -/
theorem UrlSafe.leaves (lawful : native.Lawful) {o : UrlObject} {op : UrlObject.Op}
    {url : URLRecord} (safe : UrlSafe native o.record) (leaves : Leaves native o op url)
    (slip : ¬FilePort native o op) : UrlSafe native url := by
  cases leaves with
  | same => exact safe
  | href value u parsed => exact (urlOk_of_parseURL lawful (by simp) parsed).safe
  | protocol value scheme leading => exact safe.withScheme (schemeOk_leadingScheme leading)
  | username value allowed =>
    exact safe.withCredentials (not_bare allowed) (encoded_encode keepsEscapes_userinfoExtra _)
      safe.authority.passwordOk
  | password value allowed =>
    exact safe.withCredentials (not_bare allowed) safe.authority.usernameOk
      (encoded_encode keepsEscapes_userinfoExtra _)
  | host value url list assigned =>
    exact safe.hostAssigned lawful list assigned fun _ file host port => slip ⟨file, host, port⟩
  | hostname value url list assigned =>
    exact safe.hostAssigned lawful list assigned fun host => by cases host
  | port value port allowed fits => exact safe.withPort (not_bare allowed) fits
  | pathname value l list ok filled =>
    exact ⟨safe.authority, ⟨ok.segments, filled⟩, safe.query, safe.fragment⟩
  | search value query encoded removed =>
    exact ⟨safe.authority, safe.path, encoded, safe.fragment⟩
  | hash value fragment encoded removed =>
    exact ⟨safe.authority, safe.path, safe.query, encoded⟩
  | searchParams call query encoded removed =>
    exact ⟨safe.authority, safe.path, encoded, safe.fragment⟩

theorem opaquePath_of_isFile {o : UrlObject} (safe : UrlSafe native o.record)
    (file : isFile o.record.scheme = true) : o.record.opaquePath = false :=
  opaquePath_of_special safe (isSpecialScheme_of_isFile file)

/-- A port that is assigned to a file URL with a host stays there. -/
theorem port_of_filePort {o : UrlObject} {op : UrlObject.Op} (lawful : native.Lawful)
    (safe : UrlSafe native o.record) (slip : FilePort native o op) :
    isFile (o.step native op).record.scheme = true ∧ (o.step native op).record.port ≠ none := by
  cases op with
  | host value =>
    obtain ⟨file, host, port⟩ := slip
    obtain ⟨h, assigned⟩ := Option.isSome_iff_exists.mp host
    obtain ⟨p, number⟩ := Option.isSome_iff_exists.mp port
    have special : isSpecial o.record = true := isSpecialScheme_of_isFile file
    have filled : h ≠ .text [] := by
      rintro rfl
      have fits := hostOk_of_parseHost lawful (assignedHost_eq assigned).1
      rw [special] at fits
      cases fits with
      | domain _ nonempty => exact nonempty rfl
    have result : (o.step native (.host value)).record = hostRecord native o.record false value := by
      exact congrArg UrlObject.record (step_host (opaquePath_of_isFile safe file))
    rw [result, (hostRecord_host assigned filled).2, hostRecord_port assigned filled number]
    refine ⟨file, ?_⟩
    have none : defaultPort o.record.scheme = none := by
      rw [isFile_iff.mp file]
      decide
    simp [keptPort, none]
  | _ => exact absurd slip id

end Safe

end QjsLws.Url
