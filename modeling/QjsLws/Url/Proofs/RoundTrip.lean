import QjsLws.Url.Proofs.ReadBack

/-!
# Serialized URLs read back

The run of the parser on a serialized record from the scheme on, for every kind of record, and the
round trip of parsing and serializing.
-/

namespace QjsLws.Url

open QjsLws.Misc ParserInput

section Credentials

variable {x : ParserInput} {v : ParserVars} {u : URLRecord}

/-- The credentials as they are written. -/
def credentialsText (u : URLRecord) : Text :=
  if includesCredentials u then
    u.username ++ (if u.password ≠ [] then ':' :: u.password else []) ++ ['@']
  else []

/-- Only the scheme was read, and nothing of the authority. -/
structure Started (scheme : Text) (v : ParserVars) : Prop where
  url : v.url = schemeOnly scheme
  buffer : v.buffer = []
  unseen : v.atSignSeen = false
  brackets : v.insideBrackets = false
  token : v.passwordTokenSeen = false

theorem userinfo_char {t : Text} (encoded : Encoded userinfoExtra t) {c : Char} (member : c ∈ t) :
    c ≠ '@' ∧ c ≠ ':' ∧ c ≠ '/' ∧ c ≠ '\\' ∧
      ∀ special, endsAuthority special (some c) = false := by
  have copy := encoded c member
  have other : ∀ d, copied userinfoExtra d = false → c ≠ d := by
    rintro d not rfl
    rw [copy] at not
    cases not
  have slash := other '/' (by decide)
  have question := other '?' (by decide)
  have hash := other '#' (by decide)
  have backslash := other '\\' (by decide)
  refine ⟨other '@' (by decide), other ':' (by decide), slash, backslash, fun special => ?_⟩
  simp [endsAuthority, slash, question, hash, backslash]

theorem userinfo_username {t : Text} (encoded : Encoded userinfoExtra t)
    (token : v.passwordTokenSeen = false) :
    t.foldl userinfoChar v = { v with url := { v.url with username := v.url.username ++ t } } := by
  induction t generalizing v with
  | nil => simp
  | cons c t ih =>
    have colon := (userinfo_char encoded List.mem_cons_self).2.1
    have one : userinfoChar v c
        = { v with url := { v.url with username := v.url.username ++ [c] } } := by
      simp [userinfoChar, colon, token, encodeChar_of_copied (encoded c List.mem_cons_self)]
    have later : Encoded userinfoExtra t := fun d member => encoded d (List.mem_cons_of_mem c member)
    rw [List.foldl_cons, one, ih later (by exact token)]
    simp

theorem userinfo_password {t : Text} (encoded : Encoded userinfoExtra t)
    (token : v.passwordTokenSeen = true) :
    t.foldl userinfoChar v = { v with url := { v.url with password := v.url.password ++ t } } := by
  induction t generalizing v with
  | nil => simp
  | cons c t ih =>
    have one : userinfoChar v c
        = { v with url := { v.url with password := v.url.password ++ [c] } } := by
      simp [userinfoChar, token, encodeChar_of_copied (encoded c List.mem_cons_self)]
    have later : Encoded userinfoExtra t := fun d member => encoded d (List.mem_cons_of_mem c member)
    rw [List.foldl_cons, one, ih later (by exact token)]
    simp

/-- The credentials of a record, read from their text. -/
theorem userinfo_credentials (username : Encoded userinfoExtra u.username)
    (password : Encoded userinfoExtra u.password) (url : v.url = schemeOnly u.scheme)
    (token : v.passwordTokenSeen = false) :
    (u.username ++ if u.password ≠ [] then ':' :: u.password else []).foldl userinfoChar v
      = { v with
        url := credentialsOf u
        passwordTokenSeen := decide (u.password ≠ []) } := by
  rw [List.foldl_append, userinfo_username username token]
  by_cases empty : u.password = []
  · simp [empty, url, schemeOnly, newURLRecord, credentialsOf, headOf, token]
  · rw [if_pos empty, List.foldl_cons]
    have colon : userinfoChar { v with
        url := { v.url with username := v.url.username ++ u.username } } ':' = { v with
          url := { v.url with username := v.url.username ++ u.username }
          passwordTokenSeen := true } := by
      simp [userinfoChar, token]
    rw [colon, userinfo_password password (by rfl)]
    simp [empty, url, schemeOnly, newURLRecord, credentialsOf, headOf]

theorem credentialsOf_eq (bare : includesCredentials u = false) :
    credentialsOf u = schemeOnly u.scheme := by
  simp only [includesCredentials, Bool.or_eq_false_iff, decide_eq_false_iff_not,
    not_not] at bare
  simp [credentialsOf, headOf, schemeOnly, newURLRecord, bare.1, bare.2]

/-- The characters of the credentials before the `@`. -/
theorem credentials_char (username : Encoded userinfoExtra u.username)
    (password : Encoded userinfoExtra u.password) {c : Char}
    (member : c ∈ u.username ++ if u.password ≠ [] then ':' :: u.password else []) :
    c ≠ '@' ∧ c ≠ '/' ∧ c ≠ '\\' ∧ ∀ special, endsAuthority special (some c) = false := by
  rcases List.mem_append.mp member with first | second
  · obtain ⟨sign, -, slash, backslash, ends⟩ := userinfo_char username first
    exact ⟨sign, slash, backslash, ends⟩
  · split at second
    · rcases List.mem_cons.mp second with rfl | later
      · exact ⟨by decide, by decide, by decide, fun special => by cases special <;> decide⟩
      · obtain ⟨sign, -, slash, backslash, ends⟩ := userinfo_char password later
        exact ⟨sign, slash, backslash, ends⟩
    · cases second

/-- The authority with its credentials. -/
theorem readsBack_credentials {l : List Text} {h : Host} (lawful : x.native.Lawful)
    (override : x.stateOverride = none) (ok : UrlOk x.native u) (path : u.path = .segments l)
    (host : u.host = some h) (notFile : isFile u.scheme = false)
    (place : Rest x.cp v.pointer (credentialsText u ++ (serializeHost x.native h ++
      (portText u ++ (l.flatMap ('/' :: ·) ++ tailText u))))) (state : v.state = .authority)
    (started : Started u.scheme v) : ReadsBack x u h v := by
  have username := ok.safe.authority.usernameOk
  have password := ok.safe.authority.passwordOk
  cases credentials : includesCredentials u with
  | false =>
    have text : credentialsText u = [] := by simp [credentialsText, credentials]
    rw [text, List.nil_append] at place
    apply readsBack_authority lawful override ok path host notFile place state started.buffer
      started.brackets
    · rw [started.url, credentialsOf_eq credentials]
    · intro seen
      rw [started.unseen] at seen
      cases seen
  | true =>
    obtain ⟨t, before⟩ : ∃ t, (u.username ++ if u.password ≠ [] then ':' :: u.password else []) = t :=
      ⟨_, rfl⟩
    have text : credentialsText u = t ++ ['@'] := by
      rw [← before]
      simp [credentialsText, credentials]
    rw [text, List.append_assoc] at place
    have back : ReadsBack x u h { v with
        url := credentialsOf u
        passwordTokenSeen := decide (u.password ≠ [])
        atSignSeen := true
        buffer := []
        pointer := v.pointer + t.length + 1 } :=
      readsBack_authority lawful override ok path host notFile place.drop.next state rfl
        started.brackets rfl (fun _ => credentials)
    apply back.of_reach
    intro r next
    apply Returns.read place
    · intro b p c member found
      obtain ⟨sign, -, -, ends⟩ := credentials_char username password (before ▸ member)
      simp only [ParserInput.pass, state, ParserInput.authority, found]
      rw [if_neg (by simp [sign]), if_neg (by simp [ends])]
      rfl
    · rw [started.buffer, List.nil_append]
      have found : charAt x.cp (v.pointer + t.length) = some '@' := place.drop.charAt_eq
      have pass : x.pass { v with buffer := t, pointer := v.pointer + t.length }
          = .next { v with
            url := credentialsOf u
            passwordTokenSeen := decide (u.password ≠ [])
            atSignSeen := true
            buffer := []
            pointer := v.pointer + t.length } := by
        simp only [ParserInput.pass, state, ParserInput.authority, found, started.unseen,
          Bool.false_eq_true, if_false, if_true]
        rw [← before, userinfo_credentials username password (by exact started.url)
          (by exact started.token)]
        rfl
      exact Returns.char place.drop pass rfl next

/-- The first character of an authority with a host is no slash. -/
theorem authority_head {h : Host} {special : Bool} (lawful : x.native.Lawful)
    (ok : UrlOk x.native u) (hostOk : HostOk x.native special h)
    (nonempty : serializeHost x.native h ≠ []) (t : Text) :
    (credentialsText u ++ (serializeHost x.native h ++ t)).head? ≠ some '/' ∧
      (credentialsText u ++ (serializeHost x.native h ++ t)).head? ≠ some '\\' := by
  have chars : ∀ c ∈ credentialsText u ++ serializeHost x.native h, c ≠ '/' ∧ c ≠ '\\' := by
    intro c member
    rcases List.mem_append.mp member with first | second
    · rw [credentialsText] at first
      split at first
      · rcases List.mem_append.mp first with inside | sign
        · obtain ⟨-, slash, backslash, -⟩ := credentials_char ok.safe.authority.usernameOk
            ok.safe.authority.passwordOk inside
          exact ⟨slash, backslash⟩
        · rw [List.mem_singleton.mp sign]
          decide
      · cases first
    · obtain ⟨slash, -, -, backslash, -⟩ := authority_char_of_mem lawful hostOk second
      exact ⟨slash, backslash⟩
  rw [← List.append_assoc]
  cases text : credentialsText u ++ serializeHost x.native h with
  | nil => exact absurd (List.append_eq_nil_iff.mp text).2 nonempty
  | cons c rest =>
    rw [text] at chars
    obtain ⟨slash, backslash⟩ := chars c List.mem_cons_self
    simp [slash, backslash]

/-- The slashes of a special URL. -/
theorem readsBack_slashes {l : List Text} {h : Host} (lawful : x.native.Lawful)
    (override : x.stateOverride = none) (ok : UrlOk x.native u) (path : u.path = .segments l)
    (host : u.host = some h) (notFile : isFile u.scheme = false)
    (special : isSpecialScheme u.scheme = true)
    (place : Rest x.cp v.pointer ('/' :: '/' :: (credentialsText u ++ (serializeHost x.native h ++
      (portText u ++ (l.flatMap ('/' :: ·) ++ tailText u))))))
    (state : v.state = .specialRelativeOrAuthority ∨ v.state = .specialAuthoritySlashes)
    (started : Started u.scheme v) : ReadsBack x u h v := by
  have hostOk := ok.safe.hostOk host notFile
  rw [special] at hostOk
  obtain ⟨slash, backslash⟩ := authority_head lawful ok hostOk (serializeHost_ne_nil lawful hostOk)
    (portText u ++ (l.flatMap ('/' :: ·) ++ tailText u))
  have here : charAt x.cp v.pointer = some '/' := place.charAt_eq
  have there : charAt x.cp (v.pointer + 1) = some '/' := place.next.charAt_eq
  have inner := place.next.next
  have pass : x.pass v = .next (v.goto .specialAuthorityIgnoreSlashes).skip := by
    rcases state with state | state
    · simp [ParserInput.pass, state, specialRelativeOrAuthority, here, there]
    · simp [ParserInput.pass, state, specialAuthoritySlashes, here, there]
  have leave : x.pass { v with state := .specialAuthorityIgnoreSlashes, pointer := v.pointer + 1 + 1 }
      = .next { v with state := .authority, pointer := v.pointer + 1 } := by
    simp only [ParserInput.pass, specialAuthorityIgnoreSlashes, inner.charAt_eq]
    rw [if_pos ⟨slash, backslash⟩]
    simp
  have back : ReadsBack x u h { v with state := .authority, pointer := v.pointer + 1 + 1 } :=
    readsBack_credentials lawful override ok path host notFile inner rfl
      ⟨started.url, started.buffer, started.unseen, started.brackets, started.token⟩
  apply back.of_reach
  intro r next
  have length := inner.length_eq
  refine Returns.step pass ?_ ?_
  · dsimp only [ParserVars.goto, ParserVars.skip]
    omega
  · exact Returns.again inner leave (by simp) next

end Credentials

section File

variable {x : ParserInput} {v : ParserVars} {u : URLRecord}

theorem isWindowsDriveLetter_host {native : Native} {special : Bool} {h : Host}
    (lawful : native.Lawful) (ok : HostOk native special h) :
    isWindowsDriveLetter (serializeHost native h) = false := by
  unfold isWindowsDriveLetter
  split
  · rename_i letter mark text
    by_cases name : ∀ address, h ≠ .ipv6 address
    · have allowed := (not_forbidden_of_mem lawful ok name (c := mark) (by rw [text]; simp)).1
      have colon : mark ≠ ':' := by
        rintro rfl
        exact allowed (by decide)
      have bar : mark ≠ '|' := by
        rintro rfl
        exact allowed (by decide)
      simp [colon, bar]
    · push Not at name
      obtain ⟨address, rfl⟩ := name
      have first : '[' = letter := (List.cons.inj text).1
      rw [← first]
      rfl
  · rfl

/-- The record of a file URL before its host. -/
theorem file_head {native : Native} (safe : UrlSafe native u) (file : isFile u.scheme = true)
    {h : Host} (host : u.host = some h) :
    { schemeOnly u.scheme with host := some h } = { headOf u with path := .segments [] } := by
  obtain ⟨username, password, port⟩ := safe.authority.bare (.inl file)
  simp [schemeOnly, newURLRecord, headOf, username, password, port, host]

/-- The end of a file host. -/
theorem pass_fileHost_end {c : Option Char} (override : x.stateOverride = none)
    (state : v.state = .fileHost) (found : charAt x.cp v.pointer = c)
    (ends : endsAuthority true c = true) (letter : isWindowsDriveLetter v.buffer = false)
    (filled : v.buffer ≠ []) :
    x.pass v = x.withHost v.back fun v host =>
      .next ((setHost v (if host = .text "localhost".toList then .text [] else host)).goto
        .pathStart) := by
  simp only [ParserInput.pass, state, ParserInput.fileHost, found, ends, override]
  rw [if_pos trivial, if_neg (by simp [letter]), if_neg (by exact filled)]
  rfl

/-- The host of a file URL. -/
theorem readsBack_fileHost {l : List Text} {h : Host} (lawful : x.native.Lawful)
    (override : x.stateOverride = none) (ok : UrlOk x.native u) (path : u.path = .segments l)
    (host : u.host = some h) (file : isFile u.scheme = true)
    (place : Rest x.cp v.pointer (serializeHost x.native h ++
      (l.flatMap ('/' :: ·) ++ tailText u))) (state : v.state = .fileHost)
    (buffer : v.buffer = []) (url : v.url = { schemeOnly u.scheme with host := some (.text []) }) :
    ReadsBack x u h v := by
  obtain ⟨-, ends⟩ := path_head l u
  have special : isSpecial v.url = true := by
    rw [url]
    exact isSpecialScheme_of_isFile file
  have onward : ∀ w : ParserVars, Rest x.cp w.pointer (l.flatMap ('/' :: ·) ++ tailText u) →
      w.state = .pathStart → w.buffer = [] → w.url = { schemeOnly u.scheme with host := some h } →
      Returns x w (u, .record) := by
    intro w place' state' buffer' url'
    apply returns_pathStart override ok path place' state' buffer'
    rw [url', file_head ok.safe file host]
  rcases ok.safe.authority.hostOk h host with hostOk | ⟨-, rfl⟩
  · rw [isSpecialScheme_of_isFile file] at hostOk
    have letter := isWindowsDriveLetter_host lawful hostOk
    have filled := serializeHost_ne_nil lawful hostOk
    have reach : ∀ r, Returns x { v with
        buffer := serializeHost x.native h
        pointer := v.pointer + (serializeHost x.native h).length } r → Returns x v r := by
      intro r next
      apply Returns.read place
      · intro b p c member found
        have inside : endsAuthority true (some c) = false := endsAuthority_of_mem lawful hostOk member
        simp [ParserInput.pass, state, ParserInput.fileHost, found, inside]
      · rw [buffer]
        exact next
    have pass := pass_fileHost_end (v := { v with
      buffer := serializeHost x.native h
      pointer := v.pointer + (serializeHost x.native h).length }) override state
      place.drop.charAt_eq (ends true) letter filled
    refine ReadsBack.of_reach ⟨?_, ?_⟩ reach
    · intro undotted
      have parsed := parseHost_serializeHost lawful hostOk undotted
      have local' : h ≠ .text "localhost".toList := by
        intro same
        exact ok.stable.localhost file (by rw [host, same])
      have step : x.pass { v with
          buffer := serializeHost x.native h
          pointer := v.pointer + (serializeHost x.native h).length } = .next { v with
            url := { schemeOnly u.scheme with host := some h }
            state := .pathStart
            buffer := []
            pointer := v.pointer + (serializeHost x.native h).length - 1 } := by
        rw [pass]
        simp only [withHost, ParserVars.back, special, parsed, if_neg local', setHost]
        simp [url]
      refine Returns.again place.drop step rfl ?_
      apply onward
      · simpa using place.drop
      · rfl
      · rfl
      · rfl
    · intro dotted
      have parsed := parseHost_writtenDotted lawful hostOk dotted
      refine ⟨v.url, Returns.done ?_⟩
      rw [pass]
      simp only [withHost, ParserVars.back, special, parsed]
  · have undotted : ¬WrittenDotted x.native (.text []) := by
      rintro ⟨address, no, -⟩
      cases no
    refine ⟨fun _ => ?_, fun dotted => absurd dotted undotted⟩
    have here : Rest x.cp v.pointer (l.flatMap ('/' :: ·) ++ tailText u) := place
    have step : x.pass v = .next { v with
        url := { schemeOnly u.scheme with host := some (.text []) }
        state := .pathStart
        pointer := v.pointer - 1 } := by
      simp only [ParserInput.pass, state, ParserInput.fileHost, here.charAt_eq, ends, override]
      simp [buffer, isWindowsDriveLetter, url]
    refine Returns.again here step rfl ?_
    apply onward
    · simpa using here
    · rfl
    · exact buffer
    · rfl

/-- The slashes of a file URL. -/
theorem readsBack_file {l : List Text} {h : Host} (lawful : x.native.Lawful)
    (override : x.stateOverride = none) (ok : UrlOk x.native u) (path : u.path = .segments l)
    (host : u.host = some h) (file : isFile u.scheme = true)
    (place : Rest x.cp v.pointer ('/' :: '/' :: (serializeHost x.native h ++
      (l.flatMap ('/' :: ·) ++ tailText u)))) (state : v.state = .file)
    (buffer : v.buffer = []) (url : v.url = schemeOnly u.scheme) : ReadsBack x u h v := by
  have here : charAt x.cp v.pointer = some '/' := place.charAt_eq
  have there : charAt x.cp (v.pointer + 1) = some '/' := place.next.charAt_eq
  have scheme := isFile_iff.mp file
  have first : x.pass v = .next { v with
      url := { schemeOnly u.scheme with host := some (.text []) }
      state := .fileSlash } := by
    simp [ParserInput.pass, state, ParserInput.file, here, url, schemeOnly, scheme]
  have second : x.pass { v with
      url := { schemeOnly u.scheme with host := some (.text []) }
      state := .fileSlash
      pointer := v.pointer + 1 } = .next { v with
        url := { schemeOnly u.scheme with host := some (.text []) }
        state := .fileHost
        pointer := v.pointer + 1 } := by
    simp [ParserInput.pass, ParserInput.fileSlash, there]
  have back : ReadsBack x u h { v with
      url := { schemeOnly u.scheme with host := some (.text []) }
      state := .fileHost
      pointer := v.pointer + 1 + 1 } :=
    readsBack_fileHost lawful override ok path host file place.next.next rfl buffer rfl
  apply back.of_reach
  intro r next
  apply Returns.char place first rfl
  exact Returns.char place.next second rfl next

end File

section Hostless

variable {x : ParserInput} {v : ParserVars} {u : URLRecord}

/-- The record of a URL without a host before its path. -/
theorem hostless_head {native : Native} (safe : UrlSafe native u) (host : u.host = none)
    (path : UrlPath) : { schemeOnly u.scheme with path := path } = { headOf u with path := path } := by
  obtain ⟨username, password, port⟩ := safe.authority.bare (.inr (.inl host))
  simp [schemeOnly, newURLRecord, headOf, username, password, port, host]

/-- The opaque path state reads what is left of the path. -/
theorem returns_opaquePath {done t : Text} (override : x.stateOverride = none)
    (safe : UrlSafe x.native u) (path : u.path = .text (done ++ t))
    (place : Rest x.cp v.pointer (t ++ tailText u)) (state : v.state = .opaquePath)
    (buffer : v.buffer = []) (url : v.url = { headOf u with path := .text done }) :
    Returns x v (u, .record) := by
  have whole := safe.path
  rw [path] at whole
  obtain ⟨-, -, encoded, plain, -⟩ := whole
  induction t generalizing done v with
  | nil =>
    rw [List.append_nil] at path
    have pass : x.pass v = tailPass v (tailText u).head? := by
      simp only [ParserInput.pass, state, ParserInput.opaquePath, place.charAt_eq, tailPass,
        List.nil_append]
      rcases tail_head u with none | question | hash
      · rw [none, if_neg (by decide), if_neg (by decide), url]
        simp [utf8PercentEncode, ← url, ← state]
      · simp [question]
      · simp [hash]
    apply returns_tail override safe place pass rfl buffer
    rw [url, ← path]
    rfl
  | cons c t ih =>
    have member : c ∈ done ++ c :: t := by simp
    obtain ⟨question, hash⟩ := plain c member
    have found : charAt x.cp v.pointer = some c := place.charAt_eq
    have pass : x.pass v = .next { v with url := { headOf u with path := .text (done ++ [c]) } } := by
      simp only [ParserInput.pass, state, ParserInput.opaquePath, found, Option.some.injEq, question,
        hash, if_false, url]
      simp [encodeChar_of_copied (encoded c member)]
    refine Returns.char place pass rfl ?_
    rw [List.append_cons] at path encoded plain
    exact ih (v := { v with
      url := { headOf u with path := .text (done ++ [c]) }
      pointer := v.pointer + 1 }) path place.next state buffer rfl encoded plain

/-- The first slash of a path without a host is read; what follows is no authority. -/
theorem returns_pathOrAuthority {s : Text} {rest : List Text} (lawful : x.native.Lawful)
    (override : x.stateOverride = none) (ok : UrlOk x.native u)
    (path : u.path = .segments (s :: rest))
    (place : Rest x.cp v.pointer
      ((if s = [] ∧ rest ≠ [] then ['.', '/'] else []) ++
        (s ++ (rest.flatMap ('/' :: ·) ++ tailText u)))) (state : v.state = .pathOrAuthority)
    (buffer : v.buffer = []) (url : v.url = { headOf u with path := .segments [] }) :
    Returns x v (u, .record) := by
  have drive := ok.stable.drive _ path
  by_cases guarded : s = [] ∧ rest ≠ []
  · rw [if_pos guarded, List.cons_append, List.cons_append, List.nil_append] at place
    have here : charAt x.cp v.pointer = some '.' := place.charAt_eq
    have there : charAt x.cp (v.pointer + 1) = some '/' := place.next.charAt_eq
    have enter : x.pass v = .next { v with state := .path, pointer := v.pointer - 1 } := by
      simp [ParserInput.pass, state, pathOrAuthority, here]
    have dot : x.pass { v with state := .path } = .next { v with state := .path, buffer := ['.'] } := by
      have copy : encodeChar pathExtra '.' = ['.'] := by decide
      have slash : isSlash (isSpecial v.url) (some '.') = false := by cases isSpecial v.url <;> rfl
      simp [ParserInput.pass, ParserInput.path, here, slash, buffer, copy]
    have single : x.pathSegment v.url ['.'] true [] = [] := by
      have double : isDoubleDotSegment x.native ['.'] = false := by
        rw [isDoubleDotSegment, lawful.toLowerCase_ascii ['.'] (forall_mem_of_all (by decide))]
        decide
      have one : isSingleDotSegment x.native ['.'] = true := rfl
      simp [pathSegment, double, one]
    have before : v.url.path = .segments [] := by rw [url]
    have slash := pass_path_slash (x := x)
      (v := { v with state := .path, buffer := ['.'], pointer := v.pointer + 1 }) rfl before there
    dsimp only at slash
    rw [single] at slash
    have same : { v.url with path := .segments [] } = v.url := by rw [url]
    rw [same] at slash
    refine Returns.again place enter rfl ?_
    have back : { v with state := .path, pointer := v.pointer - 1 }.advance = { v with state := .path } := by
      simp
    rw [back]
    refine Returns.char place dot rfl ?_
    refine Returns.char place.next slash rfl ?_
    exact returns_path (v := { v with
      state := .path
      buffer := []
      pointer := v.pointer + 1 + 1 }) override ok.safe drive path place.next.next rfl rfl url
  · rw [if_neg guarded, List.nil_append] at place
    have other : (s ++ (rest.flatMap ('/' :: ·) ++ tailText u)).head? ≠ some '/' := by
      cases s with
      | nil =>
        have none : rest = [] := by
          by_contra some
          exact guarded ⟨rfl, some⟩
        rw [none, List.flatMap_nil, List.nil_append, List.nil_append]
        rcases tail_head u with empty | question | hash
        · simp [empty]
        · simp [question]
        · simp [hash]
      | cons c s =>
        have all := ok.safe.path
        rw [path] at all
        have slash := (all.1 (c :: s) List.mem_cons_self).slash
        intro same
        exact slash (by simp at same; simp [same])
    have enter : x.pass v = .next { v with state := .path, pointer := v.pointer - 1 } := by
      simp only [ParserInput.pass, state, pathOrAuthority, place.charAt_eq]
      rw [if_neg other]
      rfl
    refine Returns.again place enter rfl ?_
    exact returns_path (v := { v with
      state := .path
      pointer := v.pointer - 1 + 1 }) override ok.safe drive path (by simpa using place) rfl buffer url

end Hostless

section Scheme

variable {x : ParserInput} {u : URLRecord} {r : URLRecord × ParseEnd}

theorem scheme_char {scheme : Text} (lawful : x.native.Lawful) (ok : SchemeOk scheme) {c : Char}
    (member : c ∈ scheme) : isSchemeChar c = true ∧ x.native.toLowerCase [c] = [c] := by
  obtain ⟨char, lower⟩ := ok.chars c member
  refine ⟨char, ?_⟩
  rw [toLowerCase_singleton lawful (toLower_schemeChar char).1, lower]

/-- The variables after the scheme and before its colon. -/
def schemeVars (scheme : Text) : ParserVars :=
  ⟨newURLRecord, .scheme, scheme, false, false, false, scheme.length⟩

/-- The scheme states read the scheme into the buffer. -/
theorem returns_scheme {scheme t : Text} (lawful : x.native.Lawful) (ok : SchemeOk scheme)
    (cp : x.cp = scheme ++ ':' :: t) (next : Returns x (schemeVars scheme) r) :
    Returns x (initialVars newURLRecord none) r := by
  obtain ⟨c, rest, text, alpha⟩ := ok.first
  have place : Rest x.cp 0 (c :: (rest ++ ':' :: t)) := by
    rw [cp, text]
    exact rest_zero _
  have found : charAt x.cp 0 = some c := place.charAt_eq
  have lower := (scheme_char lawful ok (c := c) (by rw [text]; simp)).2
  have start : x.pass (initialVars newURLRecord none) = .next { initialVars newURLRecord none with
      state := .scheme
      buffer := [c] } := by
    simp [ParserInput.pass, initialVars, schemeStart, found, isASCIIAlpha, alpha, lower,
      Option.filter]
  refine Returns.char place start rfl ?_
  refine Returns.read (v := ⟨newURLRecord, .scheme, [c], false, false, false, 1⟩) place.next ?_ ?_
  · intro b p d member found
    obtain ⟨char, lower⟩ := scheme_char lawful ok (c := d) (by rw [text]; simp [member])
    simp [ParserInput.pass, ParserInput.scheme, found, char, lower, Option.filter]
  · have same : (⟨newURLRecord, .scheme, [c] ++ rest, false, false, false, 1 + rest.length⟩
        : ParserVars) = schemeVars scheme := by
      rw [schemeVars, text]
      simp
      omega
    rw [same]
    exact next

/-- The pass over the colon. -/
theorem pass_colon {scheme t : Text} (override : x.stateOverride = none)
    (cp : x.cp = scheme ++ ':' :: t) :
    Rest x.cp (schemeVars scheme).pointer (':' :: t) ∧
      x.pass (schemeVars scheme) = .next (x.schemeRead (schemeVars scheme)) := by
  have place : Rest x.cp (scheme.length : Int) (':' :: t) := ⟨scheme, cp, rfl⟩
  have found : charAt x.cp (scheme.length : Int) = some ':' := place.charAt_eq
  have colon : isSchemeChar ':' = false := by decide
  refine ⟨place, ?_⟩
  simp [ParserInput.pass, schemeVars, ParserInput.scheme, found, override, colon, Option.filter]

theorem serializeURL_eq (native : Native) (u : URLRecord) :
    serializeURL native u false = u.scheme ++ ':' :: ((u.host.map (serializeAuthority native u)).getD []
      ++ (pathGuard u ++ (serializePath u ++ tailText u))) := by
  simp [serializeURL, tailText]

theorem serializeAuthority_eq (native : Native) (u : URLRecord) (h : Host) :
    serializeAuthority native u h
      = '/' :: '/' :: (credentialsText u ++ (serializeHost native h ++ portText u)) := by
  simp [serializeAuthority, credentialsText, portText]

/-- The text of a record with a host. -/
theorem text_of_host {native : Native} {h : Host} {l : List Text} (host : u.host = some h)
    (path : u.path = .segments l) :
    serializeURL native u false = u.scheme ++ ':' :: '/' :: '/' :: (credentialsText u ++
      (serializeHost native h ++ (portText u ++ (l.flatMap ('/' :: ·) ++ tailText u)))) := by
  have guard : pathGuard u = [] := by simp [pathGuard, host]
  rw [serializeURL_eq, guard, serializePath, path, host]
  simp [serializeAuthority_eq]

/-- The text of a record without a host and with a list path. -/
theorem text_of_segments {native : Native} {s : Text} {rest : List Text} (host : u.host = none)
    (path : u.path = .segments (s :: rest)) :
    serializeURL native u false = u.scheme ++ ':' :: '/' ::
      ((if s = [] ∧ rest ≠ [] then ['.', '/'] else []) ++
        (s ++ (rest.flatMap ('/' :: ·) ++ tailText u))) := by
  rw [serializeURL_eq, serializePath, path, host, pathGuard, path, host]
  cases s with
  | nil =>
    cases rest with
    | nil => simp [List.flatMap_cons]
    | cons t rest => simp [List.flatMap_cons]
  | cons c s => simp [List.flatMap_cons]

theorem segments_of_host {native : Native} (safe : UrlSafe native u) {h : Host}
    (host : u.host = some h) : ∃ l, u.path = .segments l := by
  cases path : u.path with
  | segments l => exact ⟨l, rfl⟩
  | text t =>
    have ok := safe.path
    rw [path] at ok
    rw [host] at ok
    cases ok.2.1

/-- A serialized record with a host is read back. -/
theorem readsBack_serialized {h : Host} (lawful : x.native.Lawful) (override : x.stateOverride = none)
    (ok : UrlOk x.native u) (cp : x.cp = serializeURL x.native u false) (host : u.host = some h) :
    ReadsBack x u h (initialVars newURLRecord none) := by
  obtain ⟨l, path⟩ := segments_of_host ok.safe host
  rw [text_of_host host path] at cp
  obtain ⟨place, colon⟩ := pass_colon override cp
  have reach : ∀ r, Returns x (schemeVars u.scheme) r →
      Returns x (initialVars newURLRecord none) r :=
    fun r => returns_scheme lawful ok.safe.authority.schemeOk cp
  suffices ReadsBack x u h (schemeVars u.scheme) from this.of_reach reach
  cases file : isFile u.scheme with
  | true =>
    have read : x.schemeRead (schemeVars u.scheme)
        = ⟨schemeOnly u.scheme, .file, [], false, false, false, u.scheme.length⟩ := by
      simp [schemeRead, schemeVars, file, schemeOnly]
    obtain ⟨username, password, port⟩ := ok.safe.authority.bare (.inl file)
    have credentials : credentialsText u = [] := by
      simp [credentialsText, includesCredentials, username, password]
    have noPort : portText u = [] := by simp [portText, port]
    rw [credentials, noPort, List.nil_append, List.nil_append] at place
    rw [read] at colon
    apply ReadsBack.of_reach _ fun r => Returns.char place colon rfl
    exact readsBack_file lawful override ok path host file place.next rfl rfl rfl
  | false =>
    cases special : isSpecialScheme u.scheme with
    | true =>
      obtain ⟨state, either, read⟩ : ∃ state, (state = .specialRelativeOrAuthority ∨
          state = .specialAuthoritySlashes) ∧ x.schemeRead (schemeVars u.scheme)
            = ⟨schemeOnly u.scheme, state, [], false, false, false, u.scheme.length⟩ := by
        simp only [schemeRead, schemeVars, file, isSpecial, special]
        cases same : x.base.any (·.scheme = u.scheme) with
        | true =>
          refine ⟨.specialRelativeOrAuthority, .inl rfl, ?_⟩
          simp [schemeOnly]
          exact same
        | false =>
          refine ⟨.specialAuthoritySlashes, .inr rfl, ?_⟩
          simp [schemeOnly]
          exact same
      rw [read] at colon
      apply ReadsBack.of_reach _ fun r => Returns.char place colon rfl
      exact readsBack_slashes lawful override ok path host file special place.next either
        ⟨rfl, rfl, rfl, rfl, rfl⟩
    | false =>
      have slash : charAt x.cp ((u.scheme.length : Int) + 1) = some '/' := place.next.charAt_eq
      have read : x.schemeRead (schemeVars u.scheme)
          = ⟨schemeOnly u.scheme, .pathOrAuthority, [], false, false, false, u.scheme.length + 1⟩ := by
        simp [schemeRead, schemeVars, file, isSpecial, special, slash, schemeOnly]
      rw [read] at colon
      have again : charAt x.cp ((u.scheme.length : Int) + 1 + 1) = some '/' :=
        place.next.next.charAt_eq
      have enter : x.pass ⟨schemeOnly u.scheme, .pathOrAuthority, [], false, false, false,
          u.scheme.length + 1 + 1⟩ = .next ⟨schemeOnly u.scheme, .authority, [], false, false, false,
            u.scheme.length + 1 + 1⟩ := by
        simp [ParserInput.pass, pathOrAuthority, again]
      have back : ReadsBack x u h ⟨schemeOnly u.scheme, .authority, [], false, false, false,
          u.scheme.length + 1 + 1 + 1⟩ :=
        readsBack_credentials lawful override ok path host file place.next.next.next rfl
          ⟨rfl, rfl, rfl, rfl, rfl⟩
      apply back.of_reach
      intro r next
      have length := place.next.next.length_eq
      refine Returns.step colon ?_ ?_
      · simp only [schemeVars] at length ⊢
        omega
      · exact Returns.char place.next.next enter rfl next

/-- A serialized record without a host is read back. -/
theorem returns_serialized (lawful : x.native.Lawful) (override : x.stateOverride = none)
    (ok : UrlOk x.native u) (cp : x.cp = serializeURL x.native u false) (host : u.host = none) :
    Returns x (initialVars newURLRecord none) (u, .record) := by
  have special := ok.safe.authority.hostless host
  have file : isFile u.scheme = false := by
    by_contra yes
    rw [isSpecialScheme_of_isFile (by simpa using yes)] at special
    cases special
  cases path : u.path with
  | text t =>
    have text : serializeURL x.native u false = u.scheme ++ ':' :: (t ++ tailText u) := by
      have guard : pathGuard u = [] := by simp [pathGuard, host, path]
      rw [serializeURL_eq, guard, serializePath, path, host]
      rfl
    rw [text] at cp
    obtain ⟨place, colon⟩ := pass_colon override cp
    have pathOk := ok.safe.path
    rw [path] at pathOk
    have other : (t ++ tailText u).head? ≠ some '/' := by
      cases t with
      | nil =>
        rcases tail_head u with none | question | hash
        · simp [none]
        · simp [question]
        · simp [hash]
      | cons c t => exact pathOk.2.2.2.2
    have found : charAt x.cp ((u.scheme.length : Int) + 1) ≠ some '/' := by
      intro slash
      exact other (place.next.charAt_eq.symm.trans slash)
    have read : x.schemeRead (schemeVars u.scheme) = ⟨{ schemeOnly u.scheme with path := .text [] },
        .opaquePath, [], false, false, false, u.scheme.length⟩ := by
      simp [schemeRead, schemeVars, file, isSpecial, special, found, schemeOnly]
    rw [read] at colon
    apply returns_scheme lawful ok.safe.authority.schemeOk cp
    refine Returns.char place colon rfl ?_
    have head : { schemeOnly u.scheme with path := .text [] } = { headOf u with path := .text [] } :=
      hostless_head ok.safe host (.text [])
    exact returns_opaquePath override ok.safe (by exact path) place.next rfl rfl head
  | segments l =>
    have pathOk := ok.safe.path
    rw [path] at pathOk
    obtain ⟨s, rest, rfl⟩ := List.exists_cons_of_ne_nil (pathOk.2 (.inr host))
    rw [text_of_segments host path] at cp
    obtain ⟨place, colon⟩ := pass_colon override cp
    have slash : charAt x.cp ((u.scheme.length : Int) + 1) = some '/' := place.next.charAt_eq
    have read : x.schemeRead (schemeVars u.scheme)
        = ⟨schemeOnly u.scheme, .pathOrAuthority, [], false, false, false, u.scheme.length + 1⟩ := by
      simp [schemeRead, schemeVars, file, isSpecial, special, slash, schemeOnly]
    rw [read] at colon
    apply returns_scheme lawful ok.safe.authority.schemeOk cp
    have length := place.next.next.length_eq
    refine Returns.step colon ?_ ?_
    · simp only [schemeVars] at length ⊢
      omega
    · apply returns_pathOrAuthority lawful override ok path place.next.next rfl rfl
      rw [← hostless_head ok.safe host]
      rfl

end Scheme

section Preprocess

theorem preprocess_eq_self {t : Text} (first : ∀ c, t.head? = some c → 0x20 < c.toNat)
    (last : ∀ c, t.getLast? = some c → 0x20 < c.toNat) (inside : ∀ c ∈ t, 0x1f < c.toNat) :
    preprocess t = t := by
  have front : t.dropWhile (·.toNat ≤ 0x20) = t := by
    cases t with
    | nil => rfl
    | cons c t =>
      rw [List.dropWhile_cons_of_neg]
      simpa using first c rfl
  have back : t.rdropWhile (·.toNat ≤ 0x20) = t := by
    rw [List.rdropWhile_eq_self_iff]
    intro nonempty
    simpa using last _ (List.getLast?_eq_some_getLast nonempty)
  rw [preprocess, strip, front, back, List.filter_eq_self]
  intro c member
  have visible := inside c member
  have tab : c ≠ '\t' := by
    rintro rfl
    exact absurd visible (by decide)
  have newline : c ≠ '\n' := by
    rintro rfl
    exact absurd visible (by decide)
  have ret : c ≠ '\r' := by
    rintro rfl
    exact absurd visible (by decide)
  simp [tab, newline, ret]

theorem visible_of_encoded {extraSet : List Nat} (space : copied extraSet ' ' = false) {t : Text}
    (encoded : Encoded extraSet t) {c : Char} (member : c ∈ t) : 0x20 < c.toNat := by
  have copy := encoded c member
  have low := (control_of_copied copy).1
  have other : c.toNat ≠ 0x20 := by
    intro same
    have blank : c = ' ' := Char.toNat_inj.mp same
    rw [blank, space] at copy
    cases copy
  omega

theorem visible_scheme {scheme : Text} (ok : SchemeOk scheme) {c : Char} (member : c ∈ scheme) :
    0x20 < c.toNat := by
  obtain ⟨char, -⟩ := ok.chars c member
  exact forall_ascii (P := fun c => isSchemeChar c = true → 0x20 < c.toNat) (by decide)
    (toLower_schemeChar char).1 char

variable {native : Native} {u : URLRecord}

theorem visible_tail (safe : UrlSafe native u) {c : Char} (member : c ∈ tailText u) :
    0x20 < c.toNat := by
  rcases List.mem_append.mp member with inQuery | inFragment
  · cases query : u.query with
    | none =>
      rw [query] at inQuery
      cases inQuery
    | some q =>
      rw [query] at inQuery
      rcases List.mem_cons.mp inQuery with rfl | inside
      · decide
      · apply visible_of_encoded _ (safe.query q query) inside
        rw [querySet]
        split <;> decide
  · cases fragment : u.fragment with
    | none =>
      rw [fragment] at inFragment
      cases inFragment
    | some f =>
      rw [fragment] at inFragment
      rcases List.mem_cons.mp inFragment with rfl | inside
      · decide
      · exact visible_of_encoded (by decide) (safe.fragment f fragment) inside

theorem visible_segments {l : List Text} {special : Bool} (ok : ∀ s ∈ l, SegmentOk native special s)
    {c : Char} (member : c ∈ l.flatMap ('/' :: ·)) : 0x20 < c.toNat := by
  obtain ⟨s, listed, inside⟩ := List.mem_flatMap.mp member
  rcases List.mem_cons.mp inside with rfl | inSegment
  · decide
  · exact visible_of_encoded (by decide) (ok s listed).encoded inSegment

theorem visible_authority (lawful : native.Lawful) (safe : UrlSafe native u) {h : Host}
    (host : u.host = some h) {c : Char} (member : c ∈ serializeAuthority native u h) :
    0x20 < c.toNat := by
  rw [serializeAuthority_eq] at member
  simp only [List.mem_cons, List.mem_append] at member
  rcases member with rfl | rfl | inCredentials | inHost | inPort
  · decide
  · decide
  · rw [credentialsText] at inCredentials
    split at inCredentials
    · simp only [List.mem_append, List.mem_singleton] at inCredentials
      rcases inCredentials with (inUsername | inPassword) | rfl
      · exact visible_of_encoded (by decide) safe.authority.usernameOk inUsername
      · split at inPassword
        · rcases List.mem_cons.mp inPassword with rfl | inside
          · decide
          · exact visible_of_encoded (by decide) safe.authority.passwordOk inside
        · cases inPassword
      · decide
    · cases inCredentials
  · rcases safe.authority.hostOk h host with ok | ⟨-, rfl⟩
    · exact (authority_char_of_mem lawful ok inHost).2.2.2.2.2
    · cases inHost
  · rw [portText] at inPort
    cases port : u.port with
    | none =>
      rw [port] at inPort
      cases inPort
    | some p =>
      rw [port] at inPort
      rcases List.mem_cons.mp inPort with rfl | digit
      · decide
      · have check : ∀ c ∈ dottedChars, 0x20 < c.toNat := forall_mem_of_all (by decide)
        exact check c (isDigit_mem_dottedChars (isDigit_of_mem_decimal digit))

/-- A serialized record has nothing that is cut off or removed. -/
theorem preprocess_serializeURL (lawful : native.Lawful) (ok : UrlOk native u) :
    preprocess (serializeURL native u false) = serializeURL native u false := by
  have front : ∀ c, (serializeURL native u false).head? = some c → 0x20 < c.toNat := by
    intro c first
    obtain ⟨d, rest, text, -⟩ := ok.safe.authority.schemeOk.first
    have same : d = c := by
      rw [serializeURL_eq, text] at first
      simpa using first
    apply visible_scheme ok.safe.authority.schemeOk
    rw [text, same]
    exact List.mem_cons_self
  cases path : u.path with
  | segments l =>
    have pathOk := ok.safe.path
    rw [path] at pathOk
    have visible : ∀ c ∈ serializeURL native u false, 0x20 < c.toNat := by
      intro c member
      rw [serializeURL_eq, serializePath, path] at member
      simp only [List.mem_append, List.mem_cons] at member
      rcases member with inScheme | rfl | inAuthority | inGuard | inPath | inTail
      · exact visible_scheme ok.safe.authority.schemeOk inScheme
      · decide
      · cases host : u.host with
        | none =>
          rw [host] at inAuthority
          cases inAuthority
        | some h =>
          rw [host] at inAuthority
          exact visible_authority lawful ok.safe host inAuthority
      · rw [pathGuard] at inGuard
        split at inGuard
        · have check : ∀ c ∈ "/.".toList, 0x20 < c.toNat := forall_mem_of_all (by decide)
          exact check c inGuard
        · cases inGuard
      · exact visible_segments pathOk.1 inPath
      · exact visible_tail ok.safe inTail
    apply preprocess_eq_self front
    · intro c last
      exact visible c (List.mem_of_getLast? last)
    · intro c member
      exact Nat.lt_trans (by decide) (visible c member)
  | text t =>
    have pathOk := ok.safe.path
    rw [path] at pathOk
    obtain ⟨-, host, encoded, -, -⟩ := pathOk
    have text : serializeURL native u false = u.scheme ++ ':' :: (t ++ tailText u) := by
      have guard : pathGuard u = [] := by simp [pathGuard, host, path]
      rw [serializeURL_eq, guard, serializePath, path, host]
      rfl
    rw [text] at front ⊢
    apply preprocess_eq_self front
    · intro c last
      rw [List.append_cons, ← List.append_assoc, List.getLast?_append] at last
      cases ends : (tailText u).getLast? with
      | some d =>
        rw [ends] at last
        cases last
        exact visible_tail ok.safe (List.mem_of_getLast? ends)
      | none =>
        rw [ends, Option.none_or, List.getLast?_append] at last
        have nothing : tailText u = [] := List.getLast?_eq_none_iff.mp ends
        have bare : u.query = none ∧ u.fragment = none := by
          rw [tailText, List.append_eq_nil_iff] at nothing
          cases query : u.query <;> cases fragment : u.fragment <;> simp_all
        cases final : t.getLast? with
        | some d =>
          rw [final] at last
          cases last
          have low := (control_of_copied (encoded c (List.mem_of_getLast? final))).1
          have other : c ≠ ' ' := by
            rintro rfl
            rcases ok.stable.trailing t path final with query | fragment
            · exact query bare.1
            · exact fragment bare.2
          have code : c.toNat ≠ 0x20 := fun same => other (Char.toNat_inj.mp same)
          omega
        | none =>
          rw [final, Option.none_or, List.getLast?_append] at last
          cases last
          decide
    · intro c member
      simp only [List.mem_append, List.mem_cons] at member
      rcases member with inScheme | rfl | inPath | inTail
      · exact Nat.lt_trans (by decide) (visible_scheme ok.safe.authority.schemeOk inScheme)
      · decide
      · exact (control_of_copied (encoded c inPath)).1
      · exact Nat.lt_trans (by decide) (visible_tail ok.safe inTail)

end Preprocess

section Results

variable {native : Native} {u : URLRecord} {base : Option URLRecord}

/-- What the parser gives for a text that nothing is removed from. -/
theorem parseURL_eq {t : Text} (same : preprocess t = t) {r : URLRecord × ParseEnd}
    (returns : Returns ⟨native, t, base, none⟩ (initialVars newURLRecord none) r) :
    parseURL native t base = some r := by
  have enough := basicURLParse_isSome native t base newURLRecord none
  rw [parseURL]
  rw [basicURLParse, same] at enough ⊢
  exact returns.eq enough

/-- The text of a record that reads back gives the record, whatever the base. -/
theorem parseURL_serializeURL (lawful : native.Lawful) (ok : UrlOk native u)
    (undotted : ∀ h, u.host = some h → ¬WrittenDotted native h) (base : Option URLRecord) :
    parseURL native (serializeURL native u false) base = some (u, .record) := by
  apply parseURL_eq (preprocess_serializeURL lawful ok)
  cases host : u.host with
  | none => exact returns_serialized lawful rfl ok rfl host
  | some h => exact (readsBack_serialized lawful rfl ok rfl host).1 (undotted h host)

/-- With a dotted IPv6 address it gives nothing. -/
theorem parseURL_writtenDotted (lawful : native.Lawful) (ok : UrlOk native u) {h : Host}
    (host : u.host = some h) (dotted : WrittenDotted native h) (base : Option URLRecord) :
    ∃ url, parseURL native (serializeURL native u false) base = some (url, .null) := by
  obtain ⟨url, null⟩ := (readsBack_serialized (x := ⟨native, serializeURL native u false, base, none⟩)
    lawful rfl ok rfl host).2 dotted
  exact ⟨url, parseURL_eq (preprocess_serializeURL lawful ok) null⟩

/-- The record is read back from its text, with every base. -/
def RoundTrips (native : Native) (u : URLRecord) : Prop :=
  ∀ base, (∀ b, base = some b → Parsed native b) →
    parseURL native (serializeURL native u false) base = some (u, .record)

/-- Parsing inverts serializing exactly when no IPv6 address is written with a dot. -/
theorem roundTrips_iff (lawful : native.Lawful) (parsed : Parsed native u) :
    RoundTrips native u ↔ ∀ h, u.host = some h → ¬WrittenDotted native h := by
  have ok := parsed.urlOk lawful
  constructor
  · intro trips h host dotted
    obtain ⟨url, null⟩ := parseURL_writtenDotted lawful ok host dotted none
    rw [trips none (fun b no => by cases no)] at null
    cases null
  · intro undotted base _
    exact parseURL_serializeURL lawful ok undotted base

end Results

end QjsLws.Url
