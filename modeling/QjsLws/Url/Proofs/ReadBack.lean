import QjsLws.Url.Proofs.Parse

/-!
# Reading the parts of a serialized URL

The run of the parser on a serialized record, from its last part to its first: each lemma takes
the parser over one part of the text and leaves the rest of the run to the lemma before it. This
module goes back from the fragment to the authority.
-/

namespace QjsLws.Url

open QjsLws.Misc ParserInput

/-- The query and the fragment of a serialized record. -/
def tailText (u : URLRecord) : Text :=
  (u.query.map ('?' :: ·)).getD [] ++ (u.fragment.map ('#' :: ·)).getD []

/-- The record without its query and fragment. -/
def headOf (u : URLRecord) : URLRecord := { u with query := none, fragment := none }

section Tail

variable {x : ParserInput} {v : ParserVars} {u : URLRecord}

/-- The fragment state encodes what is left. -/
theorem returns_fragment_encode {f g : Text} (rest : Rest x.cp v.pointer g)
    (state : v.state = .fragment) (url : v.url = { u with fragment := some f }) :
    Returns x v ({ u with fragment := some (f ++ utf8PercentEncode g fragmentExtra) }, .record) := by
  have pass : x.pass v = ParserInput.fragment v (charAt x.cp v.pointer) := by
    simp only [ParserInput.pass, state]
  rw [rest.charAt_eq] at pass
  induction g generalizing v f with
  | nil =>
    have result := Returns.finish rest pass rfl
    simpa [url, utf8PercentEncode] using result
  | cons c g ih =>
    refine Returns.char rest pass rfl ?_
    have next := ih (f := f ++ encodeChar fragmentExtra c)
      (v := { v with
        url := { u with fragment := some (f ++ encodeChar fragmentExtra c) }
        pointer := v.pointer + 1 })
      rest.next state rfl (by simp only [ParserInput.pass, state, rest.next.charAt_eq])
    rw [List.append_assoc, ← utf8PercentEncode_singleton, ← utf8PercentEncode_append,
      List.singleton_append] at next
    simpa [url] using next

/-- The fragment state reads to the end. -/
theorem returns_fragment {f g : Text} (rest : Rest x.cp v.pointer g) (state : v.state = .fragment)
    (url : v.url = { u with fragment := some f }) (encoded : Encoded fragmentExtra g) :
    Returns x v ({ u with fragment := some (f ++ g) }, .record) := by
  have result := returns_fragment_encode rest state url
  rwa [utf8PercentEncode_of_copied encoded] at result

theorem hash_not_copied : copied queryExtra '#' = false ∧ copied specialQueryExtra '#' = false := by
  decide

theorem hash_not_mem {q : Text} (encoded : Encoded (querySet u) q) : '#' ∉ q := by
  intro member
  have copy := encoded '#' member
  unfold querySet at copy
  split at copy
  · rw [hash_not_copied.2] at copy
    cases copy
  · rw [hash_not_copied.1] at copy
    cases copy

/-- The query state reads to the fragment or to the end. -/
theorem returns_query {q : Text} (override : x.stateOverride = none)
    (rest : Rest x.cp v.pointer (q ++ (u.fragment.map ('#' :: ·)).getD []))
    (state : v.state = .query) (buffer : v.buffer = [])
    (url : v.url = { u with query := some [], fragment := none }) (query : u.query = some q)
    (encoded : Encoded (querySet u) q)
    (fragment : ∀ f, u.fragment = some f → Encoded fragmentExtra f) :
    Returns x v (u, .record) := by
  have hash := hash_not_mem encoded
  have set : querySet { u with query := some [], fragment := none } = querySet u := rfl
  have copy : utf8PercentEncode q (querySet u) = q := utf8PercentEncode_of_copied encoded
  apply Returns.read rest
  · intro b p c member found
    simp only [ParserInput.pass, state, ParserInput.query, found, override]
    rw [if_neg]
    · rfl
    · rintro (none | same)
      · cases none
      · cases same.2
        exact hash member
  · have after := rest.drop
    cases present : u.fragment with
    | none =>
      rw [present] at after
      have ended : charAt x.cp (v.pointer + q.length) = none := after.charAt_eq
      have pass : x.pass { v with buffer := v.buffer ++ q, pointer := v.pointer + q.length }
          = .next { v with
            url := { u with fragment := none }
            buffer := []
            pointer := v.pointer + q.length } := by
        simp [ParserInput.pass, state, ParserInput.query, ended, url, set, copy, query, buffer]
      have result := Returns.finish after pass rfl
      have same : { u with fragment := none } = u := by rw [← present]
      rwa [same] at result
    | some f =>
      rw [present] at after
      have found : charAt x.cp (v.pointer + q.length) = some '#' := after.charAt_eq
      have pass : x.pass { v with buffer := v.buffer ++ q, pointer := v.pointer + q.length }
          = .next { v with
            url := { u with fragment := some [] }
            state := .fragment
            buffer := []
            pointer := v.pointer + q.length } := by
        simp [ParserInput.pass, state, ParserInput.query, found, override, url, set, copy, query,
          buffer]
      apply Returns.char after pass rfl
      have result := returns_fragment (x := x) (u := u) (f := [])
        (v := { v with
          url := { u with fragment := some [] }
          state := .fragment
          buffer := []
          pointer := v.pointer + q.length + 1 })
        after.next rfl rfl (fragment f present)
      have same : { u with fragment := some ([] ++ f) } = u := by
        rw [List.nil_append, ← present]
      rwa [same] at result

/-- What a state that ends a path does with the next character. -/
def tailPass (v : ParserVars) (c : Option Char) : Pass :=
  if c = some '?' then .next v.toQuery else if c = some '#' then .next v.toFragment else .next v

/-- From the end of the path to the end of the URL. -/
theorem returns_tail {w : ParserVars} (override : x.stateOverride = none)
    (safe : UrlSafe x.native u) (rest : Rest x.cp w.pointer (tailText u))
    (pass : x.pass w = tailPass v (tailText u).head?) (pointer : v.pointer = w.pointer)
    (buffer : v.buffer = []) (url : v.url = headOf u) : Returns x w (u, .record) := by
  cases query : u.query with
  | some q =>
    have text : tailText u = '?' :: (q ++ (u.fragment.map ('#' :: ·)).getD []) := by
      simp [tailText, query]
    rw [text] at rest pass
    refine Returns.char rest pass pointer ?_
    apply returns_query override (v := v.toQuery.advance) (q := q)
    · simpa [pointer] using rest.next
    · rfl
    · exact buffer
    · simp [url, headOf]
    · exact query
    · exact safe.query q query
    · exact safe.fragment
  | none =>
    cases fragment : u.fragment with
    | some f =>
      have text : tailText u = '#' :: f := by simp [tailText, query, fragment]
      rw [text] at rest pass
      refine Returns.char rest pass pointer ?_
      have result := returns_fragment (x := x) (u := u) (f := []) (g := f)
        (v := v.toFragment.advance) (by simpa [pointer] using rest.next) rfl
        (by simp [url, headOf, query]) (safe.fragment f fragment)
      have same : { u with fragment := some ([] ++ f) } = u := by
        rw [List.nil_append, ← fragment]
      rwa [same] at result
    | none =>
      have text : tailText u = [] := by simp [tailText, query, fragment]
      rw [text] at rest pass
      have result := Returns.finish rest pass pointer
      have same : v.url = u := by
        cases u
        simp_all [headOf]
      rwa [same] at result

end Tail

section Path

variable {x : ParserInput} {v : ParserVars} {u : URLRecord}

theorem path_char {special : Bool} {s : Text} (ok : SegmentOk x.native special s) {c : Char}
    (member : c ∈ s) : isSlash special (some c) = false ∧ c ≠ '?' ∧ c ≠ '#' := by
  have copy := ok.encoded c member
  refine ⟨?_, ?_, ?_⟩
  · have slash : c ≠ '/' := by
      rintro rfl
      exact ok.slash member
    have backslash : special = true → c ≠ '\\' := by
      rintro special rfl
      exact ok.backslash special member
    cases special with
    | false => simp [isSlash, slash]
    | true => simp [isSlash, slash, backslash]
  · rintro rfl
    revert copy
    decide
  · rintro rfl
    revert copy
    decide

/-- A segment that reads back is pushed as it is. -/
theorem pathSegment_ok {url : URLRecord} {special slashish : Bool} {s : Text} {done rest : List Text}
    (ok : SegmentOk x.native special s) (drive : DriveOk url.scheme (done ++ s :: rest)) :
    x.pathSegment url s slashish done = done ++ [s] := by
  rw [pathSegment, ok.double, ok.single]
  simp only [Bool.false_eq_true, if_false]
  split
  · rename_i letter
    simp only [Bool.and_eq_true, List.isEmpty_iff] at letter
    obtain ⟨⟨file, rfl⟩, letter⟩ := letter
    have normal := drive file s rfl letter
    unfold isNormalizedWindowsDriveLetter at normal
    split at normal
    · simp only [Bool.and_eq_true, decide_eq_true_eq] at normal
      simp [normal.2]
    · cases normal
  · rfl

/-- The path state reads a segment into the buffer. -/
theorem returns_segment {s t : Text} {r : URLRecord × ParseEnd}
    (ok : SegmentOk x.native (isSpecial v.url) s) (place : Rest x.cp v.pointer (s ++ t))
    (state : v.state = .path) (buffer : v.buffer = [])
    (next : Returns x { v with buffer := s, pointer := v.pointer + s.length } r) :
    Returns x v r := by
  apply Returns.read place
  · intro b p c member found
    obtain ⟨slash, question, hash⟩ := path_char ok member
    have special : isSlash (isSpecial v.url) (some c) = false := slash
    simp only [ParserInput.pass, state, ParserInput.path, found, special]
    rw [if_neg (by simp [question, hash])]
    simp [encodeChar_of_copied (ok.encoded c member)]
  · rw [buffer]
    exact next

theorem tail_head (u : URLRecord) : (tailText u).head? = none ∨ (tailText u).head? = some '?' ∨
    (tailText u).head? = some '#' := by
  rw [tailText]
  cases u.query <;> cases u.fragment <;> simp

/-- The end of the last segment. -/
theorem pass_path_end {done : List Text} {c : Option Char} (override : x.stateOverride = none)
    (state : v.state = .path) (path : v.url.path = .segments done)
    (found : charAt x.cp v.pointer = c) (ends : c = none ∨ c = some '?' ∨ c = some '#') :
    x.pass v = tailPass { v with
      url := { v.url with path := .segments (x.pathSegment v.url v.buffer false done) }
      buffer := [] } c := by
  have slash : isSlash (isSpecial v.url) c = false := by
    rcases ends with rfl | rfl | rfl <;> cases isSpecial v.url <;> rfl
  simp only [ParserInput.pass, state, found, ParserInput.path, slash, override, tailPass, path,
    UrlPath.modify]
  rw [if_pos]
  rcases ends with rfl | rfl | rfl <;> simp

/-- The end of any other segment. -/
theorem pass_path_slash {done : List Text} (state : v.state = .path)
    (path : v.url.path = .segments done) (found : charAt x.cp v.pointer = some '/') :
    x.pass v = .next { v with
      url := { v.url with path := .segments (x.pathSegment v.url v.buffer true done) }
      buffer := [] } := by
  have slash : isSlash (isSpecial v.url) (some '/') = true := rfl
  simp only [ParserInput.pass, state, found, ParserInput.path, slash, path, UrlPath.modify]
  rw [if_pos (by simp)]
  simp

/-- The next segment of a path that is being read back. -/
theorem next_segment {done rest : List Text} {s : Text} (safe : UrlSafe x.native u)
    (drive : DriveOk u.scheme (done ++ s :: rest)) (path : u.path = .segments (done ++ s :: rest))
    (url : v.url = { headOf u with path := .segments done }) :
    SegmentOk x.native (isSpecial v.url) s ∧
      ∀ slashish, x.pathSegment v.url s slashish done = done ++ [s] := by
  have ok : SegmentOk x.native (isSpecial v.url) s := by
    have all := safe.path
    rw [path] at all
    rw [url]
    exact all.1 s (by simp)
  have same : DriveOk v.url.scheme (done ++ s :: rest) := by rw [url]; exact drive
  exact ⟨ok, fun slashish => pathSegment_ok ok same⟩

/-- The path state reads the segments that are left. -/
theorem returns_path {done rest : List Text} {s : Text} (override : x.stateOverride = none)
    (safe : UrlSafe x.native u) (drive : DriveOk u.scheme (done ++ s :: rest))
    (path : u.path = .segments (done ++ s :: rest))
    (place : Rest x.cp v.pointer (s ++ (rest.flatMap ('/' :: ·) ++ tailText u)))
    (state : v.state = .path) (buffer : v.buffer = [])
    (url : v.url = { headOf u with path := .segments done }) : Returns x v (u, .record) := by
  induction rest generalizing done s v with
  | nil =>
    have before : v.url.path = .segments done := by rw [url]
    obtain ⟨ok, pushed⟩ := next_segment safe drive path url
    apply returns_segment ok place state buffer
    have pass := pass_path_end (x := x)
      (v := { v with buffer := s, pointer := v.pointer + s.length }) override state before
      place.drop.charAt_eq (tail_head u)
    dsimp only at pass
    rw [pushed] at pass
    apply returns_tail override safe place.drop pass rfl rfl
    rw [url, ← path]
    rfl
  | cons next rest ih =>
    have before : v.url.path = .segments done := by rw [url]
    have text : (next :: rest).flatMap ('/' :: ·) ++ tailText u
        = '/' :: (next ++ (rest.flatMap ('/' :: ·) ++ tailText u)) := by
      simp [List.flatMap_cons]
    rw [text] at place
    obtain ⟨ok, pushed⟩ := next_segment safe drive path url
    apply returns_segment ok place state buffer
    have pass := pass_path_slash (x := x)
      (v := { v with buffer := s, pointer := v.pointer + s.length }) state before
      place.drop.charAt_eq
    dsimp only at pass
    rw [pushed] at pass
    refine Returns.char place.drop pass rfl ?_
    rw [List.append_cons] at drive path
    apply ih drive path
    · exact place.drop.next
    · exact state
    · rfl
    · simp only [ParserVars.advance, url]

/-- The path and what follows it, after an authority. -/
theorem returns_pathStart {l : List Text} (override : x.stateOverride = none)
    (ok : UrlOk x.native u) (path : u.path = .segments l)
    (place : Rest x.cp v.pointer (l.flatMap ('/' :: ·) ++ tailText u))
    (state : v.state = .pathStart) (buffer : v.buffer = [])
    (url : v.url = { headOf u with path := .segments [] }) : Returns x v (u, .record) := by
  have special : isSpecial v.url = isSpecialScheme u.scheme := by rw [url]; rfl
  cases l with
  | nil =>
    have plain : isSpecialScheme u.scheme = false := by
      have pathOk := ok.safe.path
      rw [path] at pathOk
      by_contra yes
      exact pathOk.2 (.inl (by simpa using yes)) rfl
    rw [List.flatMap_nil, List.nil_append] at place
    have pass : x.pass v = tailPass v (tailText u).head? := by
      simp only [ParserInput.pass, state, ParserInput.pathStart, place.charAt_eq, special, plain,
        override, tailPass]
      rcases tail_head u with none | question | hash
      · simp [none]
      · simp [question]
      · simp [hash]
    apply returns_tail override ok.safe place pass rfl buffer
    rw [url, ← path]
    rfl
  | cons s rest =>
    have text : (s :: rest).flatMap ('/' :: ·) ++ tailText u
        = '/' :: (s ++ (rest.flatMap ('/' :: ·) ++ tailText u)) := by
      simp [List.flatMap_cons]
    rw [text] at place
    have pass : x.pass v = .next (v.goto .path) := by
      simp only [ParserInput.pass, state, ParserInput.pathStart, place.charAt_eq, override]
      cases isSpecial v.url <;> simp
    apply Returns.char place pass rfl
    exact returns_path (v := (v.goto .path).advance) override ok.safe (ok.stable.drive _ path) path
      place.next rfl buffer url

end Path

section Host

variable {x : ParserInput} {v : ParserVars} {u : URLRecord} {r : URLRecord × ParseEnd}

/-- A character of a host outside brackets. -/
theorem pass_host_char {c : Char} (state : v.state = .host) (found : charAt x.cp v.pointer = some c)
    (colon : c = ':' → v.insideBrackets = true)
    (inside : endsAuthority (isSpecial v.url) (some c) = false) :
    x.pass v = .next ({ v with
      insideBrackets :=
        if c = '[' then true else if c = ']' then false else v.insideBrackets }.append [c]) := by
  simp only [ParserInput.pass, state, ParserInput.host, found, Option.some.injEq]
  rw [if_neg]
  · rw [if_neg (by simp [inside])]
    rfl
  · rintro ⟨same, outside⟩
    rw [colon same] at outside
    cases outside

theorem endsAuthority_of_mem {special special' : Bool} {native : Native} {h : Host} {c : Char}
    (lawful : native.Lawful) (ok : HostOk native special h) (member : c ∈ serializeHost native h) :
    endsAuthority special' (some c) = false := by
  obtain ⟨slash, question, hash, backslash, -, -⟩ := authority_char_of_mem lawful ok member
  simp [endsAuthority, slash, question, hash, backslash]

/-- The host state reads a host into the buffer. -/
theorem returns_hostText {h : Host} {special : Bool} {t : Text} (lawful : x.native.Lawful)
    (ok : HostOk x.native special h)
    (place : Rest x.cp v.pointer (serializeHost x.native h ++ t)) (state : v.state = .host)
    (buffer : v.buffer = []) (brackets : v.insideBrackets = false)
    (next : Returns x { v with
      buffer := serializeHost x.native h
      pointer := v.pointer + (serializeHost x.native h).length } r) : Returns x v r := by
  by_cases name : ∀ address, h ≠ .ipv6 address
  · apply Returns.read place
    · intro b p c member found
      have outside := (not_forbidden_of_mem lawful ok name member).1
      have colon : c ≠ ':' := by
        rintro rfl
        exact outside (by decide)
      have left : c ≠ '[' := by
        rintro rfl
        exact outside (by decide)
      have right : c ≠ ']' := by
        rintro rfl
        exact outside (by decide)
      have pass := pass_host_char (x := x) (v := { v with buffer := b, pointer := p }) state found
        (fun same => absurd same colon) (endsAuthority_of_mem lawful ok member)
      rw [pass]
      simp [left, right]
    · rw [buffer]
      exact next
  · push Not at name
    obtain ⟨address, rfl⟩ := name
    have inside : ∀ c ∈ serializeHost x.native (.ipv6 address),
        endsAuthority (isSpecial v.url) (some c) = false :=
      fun c member => endsAuthority_of_mem lawful ok member
    have inner : ∀ c ∈ serializeIPv6 x.native address, c ≠ '[' ∧ c ≠ ']' := by
      have check : ∀ c ∈ ipv6Chars, c ≠ '[' ∧ c ≠ ']' := forall_mem_of_all (by decide)
      intro c member
      cases ok with
      | ipv6 _ bytes length => exact check c (mem_serializeIPv6 lawful length member)
    obtain ⟨a, written⟩ : ∃ a, serializeIPv6 x.native address = a := ⟨_, rfl⟩
    have text : serializeHost x.native (.ipv6 address) = '[' :: (a ++ [']']) := by
      rw [← written]
      rfl
    rw [text, List.cons_append, List.append_assoc] at place
    rw [text] at inside next
    rw [written] at inner
    have opening : x.pass v = .next { v with insideBrackets := true, buffer := ['['] } := by
      rw [pass_host_char state place.charAt_eq (fun same => absurd same (by decide))
        (inside '[' List.mem_cons_self)]
      simp [buffer]
    have closing : x.pass { v with
        insideBrackets := true
        buffer := '[' :: a
        pointer := v.pointer + 1 + a.length } = .next { v with
          buffer := '[' :: (a ++ [']'])
          pointer := v.pointer + 1 + a.length } := by
      rw [pass_host_char (v := { v with
        insideBrackets := true
        buffer := '[' :: a
        pointer := v.pointer + 1 + a.length }) state place.next.drop.charAt_eq
        (fun same => absurd same (by decide)) (inside ']' (by simp))]
      simp [brackets]
    have closes : Returns x { v with
        insideBrackets := true
        buffer := '[' :: a
        pointer := v.pointer + 1 + a.length } r := by
      refine Returns.char place.next.drop closing rfl ?_
      have length : v.pointer + ((('[' :: (a ++ [']'])).length : Nat) : Int)
          = v.pointer + 1 + a.length + 1 := by
        simp
        omega
      rw [length] at next
      exact next
    refine Returns.char place opening rfl ?_
    refine Returns.read (v := { v with
      insideBrackets := true
      buffer := ['[']
      pointer := v.pointer + 1 }) place.next ?_ closes
    intro b p c member found
    obtain ⟨left, right⟩ := inner c member
    have pass := pass_host_char (x := x)
      (v := { v with insideBrackets := true, buffer := b, pointer := p }) state found
      (fun _ => rfl) (inside c (List.mem_cons_of_mem _ (List.mem_append_left _ member)))
    simpa [left, right] using pass

/-- The port as it is written. -/
def portText (u : URLRecord) : Text := (u.port.map fun port => ':' :: decimal port).getD []

theorem path_head (l : List Text) (u : URLRecord) :
    (l.flatMap ('/' :: ·) ++ tailText u).head? ≠ some ':' ∧
      ∀ special, endsAuthority special (l.flatMap ('/' :: ·) ++ tailText u).head? = true := by
  cases l with
  | nil =>
    rw [List.flatMap_nil, List.nil_append]
    rcases tail_head u with none | question | hash
    · rw [none]
      exact ⟨by decide, fun special => rfl⟩
    · rw [question]
      exact ⟨by decide, fun special => rfl⟩
    · rw [hash]
      exact ⟨by decide, fun special => rfl⟩
  | cons s rest => exact ⟨by simp [List.flatMap_cons], fun special => rfl⟩

theorem path_not_digit (l : List Text) (u : URLRecord) :
    (l.flatMap ('/' :: ·) ++ tailText u).head?.any Char.isDigit = false := by
  cases l with
  | nil =>
    rw [List.flatMap_nil, List.nil_append]
    rcases tail_head u with none | question | hash
    · rw [none]
      rfl
    · rw [question]
      rfl
    · rw [hash]
      rfl
  | cons s rest => rfl

/-- The port state reads the port and leaves the path. -/
theorem returns_port {l : List Text} {p : Nat} (override : x.stateOverride = none)
    (ok : UrlOk x.native u) (path : u.path = .segments l) (port : u.port = some p)
    (place : Rest x.cp v.pointer (decimal p ++ (l.flatMap ('/' :: ·) ++ tailText u)))
    (state : v.state = .port) (buffer : v.buffer = [])
    (url : v.url = { headOf u with port := none, path := .segments [] }) :
    Returns x v (u, .record) := by
  obtain ⟨small, other⟩ := ok.safe.authority.portOk p port
  obtain ⟨-, ends⟩ := path_head l u
  apply Returns.read place
  · intro b q c member found
    simp [ParserInput.pass, state, ParserInput.port, found, isDigit_of_mem_decimal member]
  · rw [buffer, List.nil_append]
    have number : parseInt 10 (decimal p) = p := parseInt_decimal p
    have filled : decimal p ≠ [] := Nat.toDigits_ne_nil
    have found : charAt x.cp (v.pointer + (decimal p).length)
        = (l.flatMap ('/' :: ·) ++ tailText u).head? := place.drop.charAt_eq
    have digit : (l.flatMap ('/' :: ·) ++ tailText u).head?.any Char.isDigit = false :=
      path_not_digit l u
    have pass : x.pass { v with buffer := decimal p, pointer := v.pointer + (decimal p).length }
        = .next { v with
          url := { headOf u with path := .segments [] }
          state := .pathStart
          buffer := []
          pointer := v.pointer + (decimal p).length - 1 } := by
      have different : some p ≠ defaultPort u.scheme := fun same => other same.symm
      have scheme : v.url.scheme = u.scheme := by rw [url]; rfl
      simp only [ParserInput.pass, state, ParserInput.port, found, digit, ends, override, number,
        scheme]
      simp [filled, Nat.not_lt.mpr small, different, url, headOf, port]
    refine Returns.again place.drop pass rfl ?_
    apply returns_pathStart override ok path
    · simpa using place.drop
    · rfl
    · rfl
    · rfl

/-- A host of a URL that is no file. -/
theorem UrlSafe.hostOk {native : Native} (safe : UrlSafe native u) {h : Host}
    (host : u.host = some h) (notFile : isFile u.scheme = false) :
    HostOk native (isSpecialScheme u.scheme) h := by
  rcases safe.authority.hostOk h host with ok | ⟨file, -⟩
  · exact ok
  · rw [file] at notFile
    cases notFile

theorem serializeHost_ne_nil {native : Native} (lawful : native.Lawful) {h : Host}
    (ok : HostOk native true h) : serializeHost native h ≠ [] := by
  intro empty
  rw [serializeHost_eq_nil lawful ok] at empty
  subst empty
  cases ok with
  | domain _ nonempty => exact nonempty rfl

/-- With a port the host is not empty. -/
theorem UrlSafe.host_ne_nil {native : Native} (lawful : native.Lawful) (safe : UrlSafe native u)
    {h : Host} (host : u.host = some h) (notFile : isFile u.scheme = false)
    (more : includesCredentials u = true ∨ u.port ≠ none) : serializeHost native h ≠ [] := by
  intro empty
  rw [serializeHost_eq_nil lawful (safe.hostOk host notFile)] at empty
  subst empty
  obtain ⟨username, password, port⟩ := safe.authority.bare (.inr (.inr host))
  rcases more with credentials | some
  · simp [includesCredentials, username, password] at credentials
  · exact some port

/-- The end of a host without a port. -/
theorem pass_host_end {c : Option Char} (override : x.stateOverride = none) (state : v.state = .host)
    (found : charAt x.cp v.pointer = c) (colon : c ≠ some ':')
    (ends : endsAuthority (isSpecial v.url) c = true)
    (nonempty : isSpecial v.url = true → v.buffer ≠ []) :
    x.pass v = x.withHost v.back fun v host => .next ((setHost v host).goto .pathStart) := by
  simp only [ParserInput.pass, state, ParserInput.host, found, ends, override]
  rw [if_neg (fun both => colon both.1), if_pos trivial, if_neg (by simpa using nonempty),
    if_neg (by simp)]
  rfl

/-- The end of a host with a port. -/
theorem pass_host_colon (override : x.stateOverride = none) (state : v.state = .host)
    (found : charAt x.cp v.pointer = some ':') (brackets : v.insideBrackets = false)
    (nonempty : v.buffer ≠ []) :
    x.pass v = x.withHost v fun v host => .next ((setHost v host).goto .port) := by
  simp only [ParserInput.pass, state, ParserInput.host, found, override]
  rw [if_pos ⟨trivial, brackets⟩, if_neg nonempty, if_neg (by simp)]

/-- The record after its credentials were read. -/
def credentialsOf (u : URLRecord) : URLRecord :=
  { headOf u with host := none, port := none, path := .segments [] }

/-- The host of the record is in the buffer. -/
structure HostRead (x : ParserInput) (u : URLRecord) (h : Host) (l : List Text) (v : ParserVars) :
    Prop where
  state : v.state = .host
  buffer : v.buffer = serializeHost x.native h
  brackets : v.insideBrackets = false
  url : v.url = credentialsOf u
  place : Rest x.cp v.pointer (portText u ++ (l.flatMap ('/' :: ·) ++ tailText u))

/-- What follows a host: its port or its path. -/
theorem HostRead.pass {l : List Text} {h : Host} (read : HostRead x u h l v)
    (lawful : x.native.Lawful) (override : x.stateOverride = none) (ok : UrlOk x.native u)
    (host : u.host = some h) (notFile : isFile u.scheme = false) :
    x.pass v = if u.port.isSome then x.withHost v fun v host => .next ((setHost v host).goto .port)
      else x.withHost v.back fun v host => .next ((setHost v host).goto .pathStart) := by
  have place := read.place
  cases port : u.port with
  | none =>
    have text : portText u = [] := by rw [portText, port]; rfl
    rw [text, List.nil_append] at place
    obtain ⟨colon, ends⟩ := path_head l u
    apply pass_host_end override read.state place.charAt_eq colon (ends _)
    intro yes
    have strict := ok.safe.hostOk host notFile
    have special : isSpecial v.url = isSpecialScheme u.scheme := by rw [read.url]; rfl
    rw [← special, yes] at strict
    rw [read.buffer]
    exact serializeHost_ne_nil lawful strict
  | some p =>
    have text : portText u = ':' :: decimal p := by rw [portText, port]; rfl
    rw [text, List.cons_append] at place
    apply pass_host_colon override read.state place.charAt_eq read.brackets
    rw [read.buffer]
    exact ok.safe.host_ne_nil lawful host notFile (.inr (by simp [port]))

theorem HostRead.returns {l : List Text} {h : Host} (read : HostRead x u h l v)
    (lawful : x.native.Lawful) (override : x.stateOverride = none) (ok : UrlOk x.native u)
    (path : u.path = .segments l) (host : u.host = some h) (notFile : isFile u.scheme = false)
    (undotted : ¬WrittenDotted x.native h) : Returns x v (u, .record) := by
  have special : isSpecial v.url = isSpecialScheme u.scheme := by rw [read.url]; rfl
  have parsed := parseHost_serializeHost lawful (ok.safe.hostOk host notFile) undotted
  rw [← special] at parsed
  have pass := read.pass lawful override ok host notFile
  have place := read.place
  cases port : u.port with
  | none =>
    have text : portText u = [] := by rw [portText, port]; rfl
    rw [text, List.nil_append] at place
    have step : x.pass v = .next { v with
        url := { headOf u with path := .segments [] }
        state := .pathStart
        buffer := []
        pointer := v.pointer - 1 } := by
      rw [pass, port]
      simp only [Option.isSome_none, Bool.false_eq_true, if_false, withHost, ParserVars.back,
        read.buffer, parsed, setHost]
      simp [read.url, credentialsOf, headOf, host, port]
    refine Returns.again place step rfl ?_
    apply returns_pathStart override ok path
    · simpa using place
    · rfl
    · rfl
    · rfl
  | some p =>
    have text : portText u = ':' :: decimal p := by rw [portText, port]; rfl
    rw [text, List.cons_append] at place
    have step : x.pass v = .next { v with
        url := { headOf u with port := none, path := .segments [] }
        state := .port
        buffer := [] } := by
      rw [pass, port]
      simp only [Option.isSome_some, if_true, withHost, read.buffer, parsed, setHost]
      simp [read.url, credentialsOf, headOf, host]
    refine Returns.char place step rfl ?_
    apply returns_port override ok path port
    · exact place.next
    · rfl
    · rfl
    · rfl

theorem HostRead.returns_null {l : List Text} {h : Host} (read : HostRead x u h l v)
    (lawful : x.native.Lawful) (override : x.stateOverride = none) (ok : UrlOk x.native u)
    (host : u.host = some h) (notFile : isFile u.scheme = false)
    (dotted : WrittenDotted x.native h) : Returns x v (v.url, .null) := by
  have special : isSpecial v.url = isSpecialScheme u.scheme := by rw [read.url]; rfl
  have parsed := parseHost_writtenDotted lawful (ok.safe.hostOk host notFile) dotted
  rw [← special] at parsed
  apply Returns.done
  rw [read.pass lawful override ok host notFile]
  split
  · simp only [withHost, read.buffer, parsed]
  · simp only [withHost, ParserVars.back, read.buffer, parsed]

/-- The record is read back, unless its host is an IPv6 address that is written with a dot. -/
def ReadsBack (x : ParserInput) (u : URLRecord) (h : Host) (v : ParserVars) : Prop :=
  (¬WrittenDotted x.native h → Returns x v (u, .record)) ∧
    (WrittenDotted x.native h → ∃ url, Returns x v (url, .null))

theorem ReadsBack.of_reach {h : Host} {w : ParserVars} (back : ReadsBack x u h w)
    (reach : ∀ r, Returns x w r → Returns x v r) : ReadsBack x u h v := by
  refine ⟨fun undotted => reach _ (back.1 undotted), ?_⟩
  intro dotted
  obtain ⟨url, null⟩ := back.2 dotted
  exact ⟨url, reach _ null⟩

/-- Host and port after the credentials. -/
theorem readsBack_host {l : List Text} {h : Host} (lawful : x.native.Lawful)
    (override : x.stateOverride = none) (ok : UrlOk x.native u) (path : u.path = .segments l)
    (host : u.host = some h) (notFile : isFile u.scheme = false)
    (place : Rest x.cp v.pointer (serializeHost x.native h ++
      (portText u ++ (l.flatMap ('/' :: ·) ++ tailText u)))) (state : v.state = .host)
    (buffer : v.buffer = []) (brackets : v.insideBrackets = false) (url : v.url = credentialsOf u) :
    ReadsBack x u h v := by
  have hostOk := ok.safe.hostOk host notFile
  have read : HostRead x u h l { v with
      buffer := serializeHost x.native h
      pointer := v.pointer + (serializeHost x.native h).length } :=
    ⟨state, rfl, brackets, url, place.drop⟩
  have back : ReadsBack x u h { v with
      buffer := serializeHost x.native h
      pointer := v.pointer + (serializeHost x.native h).length } :=
    ⟨read.returns lawful override ok path host notFile,
      fun dotted => ⟨_, read.returns_null lawful override ok host notFile dotted⟩⟩
  exact back.of_reach fun r => returns_hostText lawful hostOk place state buffer brackets

theorem authority_char {h : Host} {special special' : Bool} (lawful : x.native.Lawful)
    (ok : HostOk x.native special h) {c : Char}
    (member : c ∈ serializeHost x.native h ++ portText u) :
    c ≠ '@' ∧ endsAuthority special' (some c) = false := by
  rcases List.mem_append.mp member with inHost | inPort
  · obtain ⟨slash, question, hash, backslash, sign, -⟩ := authority_char_of_mem lawful ok inHost
    exact ⟨sign, by simp [endsAuthority, slash, question, hash, backslash]⟩
  · have check : ∀ c ∈ ':' :: dottedChars, c ≠ '@' ∧ endsAuthority special' (some c) = false := by
      cases special' <;> exact forall_mem_of_all (by decide)
    apply check
    rw [portText] at inPort
    cases port : u.port with
    | none =>
      rw [port] at inPort
      cases inPort
    | some p =>
      rw [port] at inPort
      rcases List.mem_cons.mp inPort with rfl | digit
      · exact List.mem_cons_self
      · exact List.mem_cons_of_mem _ (isDigit_mem_dottedChars (isDigit_of_mem_decimal digit))

/-- The authority state reads ahead to the end of the authority and goes back to the host. -/
theorem readsBack_authority {l : List Text} {h : Host} (lawful : x.native.Lawful)
    (override : x.stateOverride = none) (ok : UrlOk x.native u) (path : u.path = .segments l)
    (host : u.host = some h) (notFile : isFile u.scheme = false)
    (place : Rest x.cp v.pointer (serializeHost x.native h ++
      (portText u ++ (l.flatMap ('/' :: ·) ++ tailText u)))) (state : v.state = .authority)
    (buffer : v.buffer = []) (brackets : v.insideBrackets = false) (url : v.url = credentialsOf u)
    (seen : v.atSignSeen = true → includesCredentials u = true) : ReadsBack x u h v := by
  have hostOk := ok.safe.hostOk host notFile
  obtain ⟨t, text⟩ : ∃ t, serializeHost x.native h ++ portText u = t := ⟨_, rfl⟩
  have whole : Rest x.cp v.pointer (t ++ (l.flatMap ('/' :: ·) ++ tailText u)) := by
    rw [← text, List.append_assoc]
    exact place
  obtain ⟨-, ends⟩ := path_head l u
  have sign : (l.flatMap ('/' :: ·) ++ tailText u).head? ≠ some '@' := by
    intro same
    have end' := ends false
    rw [same] at end'
    cases end'
  have nonempty : v.atSignSeen = true → t ≠ [] := by
    intro yes empty
    rw [← text, List.append_eq_nil_iff] at empty
    exact ok.safe.host_ne_nil lawful host notFile (.inl (seen yes)) empty.1
  have back : ReadsBack x u h { v with state := .host } :=
    readsBack_host lawful override ok path host notFile place rfl buffer brackets url
  apply back.of_reach
  intro r next
  apply Returns.read whole
  · intro b p c member found
    obtain ⟨other, inside⟩ := @authority_char x u h _ (isSpecial v.url) lawful hostOk c (text ▸ member)
    simp only [ParserInput.pass, state, ParserInput.authority, found]
    rw [if_neg (by simp [other]), if_neg (by simp [inside])]
    rfl
  · rw [buffer, List.nil_append]
    have pass : x.pass { v with buffer := t, pointer := v.pointer + t.length }
        = .next { v with
          state := .host
          buffer := []
          pointer := v.pointer + t.length - (t.length + 1) } := by
      simp only [ParserInput.pass, state, ParserInput.authority, whole.drop.charAt_eq, ends]
      rw [if_neg sign, if_pos trivial, if_neg]
      simpa using nonempty
    have length := whole.length_eq
    rw [List.length_append] at length
    refine Returns.step pass ?_ ?_
    · dsimp only
      omega
    · have same : { v with
          state := .host
          buffer := []
          pointer := v.pointer + t.length - (t.length + 1) + 1 } = { v with state := .host } := by
        have pointer : v.pointer + (t.length : Int) - (t.length + 1) + 1 = v.pointer := by omega
        rw [pointer, buffer]
      simp only [ParserVars.advance]
      rw [same]
      exact next

end Host

end QjsLws.Url
