import QjsLws.Url.Setters
import QjsLws.Url.Proofs.ReadBack

/-!
# The parser with a state override

What `basicURLParse` leaves of a record when a setter enters it in the middle, as functions of the
input without a loop; for the path, what it may leave.
-/

namespace QjsLws.Url

open QjsLws.Misc ParserInput

/-- The record that a new scheme leaves. -/
def withScheme (u : URLRecord) (scheme : Text) : URLRecord :=
  if isSpecial u ≠ isSpecialScheme scheme then u
  else if (includesCredentials u || u.port.isSome) && isFile scheme then u
  else if isFile u.scheme && (u.host = some (.text []) || u.host.isNone) then u
  else { u with scheme, port := if u.port = defaultPort scheme then none else u.port }

/-- The scheme that the text starts with. -/
def leadingScheme (cp : Text) : Option Text :=
  if cp.head?.any isASCIIAlpha ∧ (cp.dropWhile isSchemeChar).head? = some ':' then
    some (asciiLower (cp.takeWhile isSchemeChar))
  else none

/-- What the digits of a port leave. -/
def withPort (u : URLRecord) (digits : Text) : URLRecord × ParseEnd :=
  if digits = [] then (u, .record)
  else if parseInt 10 digits > 65535 then (u, .null)
  else
    let port := if some (parseInt 10 digits) = defaultPort u.scheme then none
      else some (parseInt 10 digits)
    ({ u with port }, .record)

/-- Cuts the text at the end of the host: a colon outside brackets, or the end of the authority. -/
def cutHost (special : Bool) : Bool → Text → Text × Text
  | _, [] => ([], [])
  | inside, c :: rest =>
    if c = ':' ∧ inside = false ∨ endsAuthority special (some c) then ([], c :: rest)
    else
      let inside := if c = '[' then true else if c = ']' then false else inside
      (c :: (cutHost special inside rest).1, (cutHost special inside rest).2)

/-- What the text of a host leaves. -/
def withParsedHost (native : Native) (u : URLRecord) (buffer : Text)
    (next : URLRecord → URLRecord × ParseEnd) : URLRecord × ParseEnd :=
  match parseHost native buffer (isSpecial u) with
  | .error e => (u, .threw e)
  | .ok none => (u, .null)
  | .ok (some host) => next { u with host := some host }

/-- What a host leaves, with the port that may follow it. -/
def withHostText (native : Native) (u : URLRecord) (hostname : Bool) (buffer rest : Text) :
    URLRecord × ParseEnd :=
  match rest with
  | ':' :: rest =>
    if buffer = [] then (u, .null)
    else if hostname then (u, .record)
    else withParsedHost native u buffer fun u => withPort u (rest.takeWhile Char.isDigit)
  | _ =>
    if isSpecial u && buffer.isEmpty then (u, .null)
    else if buffer.isEmpty && (includesCredentials u || u.port.isSome) then (u, .record)
    else withParsedHost native u buffer fun u => (u, .record)

section States

variable {x : ParserInput} {v : ParserVars} {u : URLRecord}

/-- The query state reads to the end. -/
theorem returns_query_override {q : Text} (override : x.stateOverride.isSome = true)
    (rest : Rest x.cp v.pointer q) (state : v.state = .query) (buffer : v.buffer = [])
    (url : v.url = { u with query := some [] }) :
    Returns x v ({ u with query := some (utf8PercentEncode q (querySet u)) }, .record) := by
  have other : x.stateOverride ≠ none := Option.isSome_iff_ne_none.mp override
  have set : querySet { u with query := some [] } = querySet u := rfl
  rw [← List.append_nil q] at rest
  apply Returns.read rest
  · intro b p c _ found
    simp [ParserInput.pass, state, ParserInput.query, found, other]
  · have ended : charAt x.cp (v.pointer + q.length) = none := rest.drop.charAt_eq
    have pass : x.pass { v with buffer := v.buffer ++ q, pointer := v.pointer + q.length }
        = .next { v with
          url := { u with query := some (utf8PercentEncode q (querySet u)) }
          buffer := []
          pointer := v.pointer + q.length } := by
      simp [ParserInput.pass, state, ParserInput.query, ended, url, set, buffer]
    exact Returns.finish rest.drop pass rfl

/-- The port state reads the digits. -/
theorem returns_port_override {t : Text} (override : x.stateOverride.isSome = true)
    (rest : Rest x.cp v.pointer t) (state : v.state = .port) (buffer : v.buffer = []) :
    Returns x v (withPort v.url (t.takeWhile Char.isDigit)) := by
  rw [← List.takeWhile_append_dropWhile (p := Char.isDigit) (l := t)] at rest
  generalize digits : t.takeWhile Char.isDigit = d at rest ⊢
  have isDigit : ∀ c ∈ d, c.isDigit = true := by
    intro c member
    rw [← digits] at member
    exact List.mem_takeWhile_imp member
  apply Returns.read rest
  · intro b p c member found
    simp [ParserInput.pass, state, ParserInput.port, found, isDigit c member]
  · have stops : (charAt x.cp (v.pointer + d.length)).any Char.isDigit = false := by
      rw [rest.drop.charAt_eq]
      have boundary := List.head?_dropWhile_not Char.isDigit t
      cases next : (t.dropWhile Char.isDigit).head? with
      | none => rfl
      | some c =>
        rw [next] at boundary
        simpa using boundary
    have result : x.pass { v with buffer := v.buffer ++ d, pointer := v.pointer + d.length }
        = .done (withPort v.url d).1 (withPort v.url d).2 := by
      simp only [ParserInput.pass, state, ParserInput.port, stops, override, buffer,
        List.nil_append, withPort]
      by_cases empty : d = []
      · simp [empty]
      · by_cases large : 65535 < parseInt 10 d
        · simp [empty, large]
        · simp [empty, large]
    exact Returns.done result

theorem schemeOverride_eq (v : ParserVars) :
    schemeOverride v = .done (withScheme v.url v.buffer) .record := by
  unfold schemeOverride withScheme
  split
  · rfl
  · split
    · rfl
    · split
      · rfl
      · rfl

/-- The scheme state reads the scheme; what follows it has to be a colon. -/
theorem returns_scheme_override {t : Text} (lawful : x.native.Lawful)
    (override : x.stateOverride.isSome = true) (rest : Rest x.cp v.pointer t)
    (state : v.state = .scheme) :
    Returns x v (if (t.dropWhile isSchemeChar).head? = some ':' then
      (withScheme v.url (v.buffer ++ asciiLower (t.takeWhile isSchemeChar)), .record)
      else (v.url, .null)) := by
  obtain ⟨o, forced⟩ := Option.isSome_iff_exists.mp override
  induction t generalizing v with
  | nil =>
    have ended : charAt x.cp v.pointer = none := rest.charAt_eq
    apply Returns.done
    simp [ParserInput.pass, state, ParserInput.scheme, ended, forced]
  | cons c t ih =>
    have found : charAt x.cp v.pointer = some c := rest.charAt_eq
    by_cases char : isSchemeChar c = true
    · have lower := toLowerCase_singleton lawful (toLower_schemeChar char).1
      have pass : x.pass v = .next { v with buffer := v.buffer ++ [c.toLower] } := by
        simp [ParserInput.pass, state, ParserInput.scheme, found, Option.filter, char, lower]
      apply Returns.char rest pass rfl
      have next := ih (v := { v with buffer := v.buffer ++ [c.toLower], pointer := v.pointer + 1 })
        rest.next state
      rw [List.takeWhile_cons_of_pos char, List.dropWhile_cons_of_pos char]
      simpa [asciiLower] using next
    · rw [List.takeWhile_cons_of_neg char, List.dropWhile_cons_of_neg char]
      by_cases colon : c = ':'
      · subst colon
        have other : isSchemeChar ':' = false := by decide
        have result : x.pass v = .done (withScheme v.url v.buffer) .record := by
          rw [← schemeOverride_eq]
          simp [ParserInput.pass, state, ParserInput.scheme, found, Option.filter, other, forced]
        have done := Returns.done result
        simpa [asciiLower] using done
      · have result : x.pass v = .done v.url .null := by
          simp [ParserInput.pass, state, ParserInput.scheme, found, Option.filter, char, forced, colon]
        have done := Returns.done result
        simpa [colon] using done

theorem withHostText_end {native : Native} {hostname : Bool} {buffer rest : Text}
    (colon : rest.head? ≠ some ':') :
    withHostText native u hostname buffer rest
      = if isSpecial u && buffer.isEmpty then (u, .null)
        else if buffer.isEmpty && (includesCredentials u || u.port.isSome) then (u, .record)
        else withParsedHost native u buffer fun u => (u, .record) := by
  rw [withHostText]
  rintro tail rfl
  exact colon rfl

/-- The host state at the end of the authority. -/
theorem host_override_end {hostname : Bool} {rest : Text} (override : x.stateOverride.isSome = true)
    (colon : rest.head? ≠ some ':') (ends : endsAuthority (isSpecial v.url) rest.head? = true) :
    x.host v rest.head? = .done (withHostText x.native v.url hostname v.buffer rest).1
      (withHostText x.native v.url hostname v.buffer rest).2 := by
  rw [withHostText_end colon, ParserInput.host, if_neg (fun found => colon found.1), if_pos ends]
  simp only [ParserVars.back, override, Bool.true_and, if_true, withHost, withParsedHost]
  split
  · rfl
  · split
    · rfl
    · cases parseHost x.native v.buffer (isSpecial v.url) with
      | error e => rfl
      | ok found =>
        cases found with
        | none => rfl
        | some h => rfl

theorem cutHost_cons {special inside : Bool} {c : Char} {t : Text}
    (goes : ¬(c = ':' ∧ inside = false ∨ endsAuthority special (some c) = true)) :
    cutHost special inside (c :: t)
      = (c :: (cutHost special (if c = '[' then true else if c = ']' then false else inside) t).1,
        (cutHost special (if c = '[' then true else if c = ']' then false else inside) t).2) :=
  if_neg goes

/-- The host state at a colon. -/
theorem returns_host_colon {t : Text} (override : x.stateOverride.isSome = true)
    (rest : Rest x.cp v.pointer (':' :: t))
    (pass : x.pass v = if v.buffer = [] then .done v.url .null
      else if x.stateOverride = some .hostname then .done v.url .record
      else x.withHost v fun v host => .next ((ParserInput.setHost v host).goto .port)) :
    Returns x v (withHostText x.native v.url (decide (x.stateOverride = some .hostname)) v.buffer
      (':' :: t)) := by
  rw [withHostText]
  by_cases empty : v.buffer = []
  · rw [if_pos empty] at pass ⊢
    exact Returns.done pass
  · rw [if_neg empty] at pass ⊢
    by_cases hostname : x.stateOverride = some .hostname
    · rw [if_pos hostname] at pass
      rw [if_pos (by simpa using hostname)]
      exact Returns.done pass
    · rw [if_neg hostname] at pass
      rw [if_neg (by simpa using hostname)]
      rw [withHost] at pass
      unfold withParsedHost
      cases parsed : parseHost x.native v.buffer (isSpecial v.url) with
      | error e =>
        rw [parsed] at pass
        exact Returns.done pass
      | ok result =>
        rw [parsed] at pass
        cases result with
        | none => exact Returns.done pass
        | some h =>
          apply Returns.char rest pass rfl
          have port := returns_port_override (t := t)
            (v := ((ParserInput.setHost v h).goto .port).advance) override rest.next rfl rfl
          exact port

/-- The host state reads to the end of the host. -/
theorem returns_host_override {t : Text} (override : x.stateOverride.isSome = true)
    (rest : Rest x.cp v.pointer t) (state : v.state = .host ∨ v.state = .hostname) :
    Returns x v (withHostText x.native v.url (decide (x.stateOverride = some .hostname))
      (v.buffer ++ (cutHost (isSpecial v.url) v.insideBrackets t).1)
      (cutHost (isSpecial v.url) v.insideBrackets t).2) := by
  have pass : ∀ w : ParserVars, w.state = v.state → x.pass w = x.host w (charAt x.cp w.pointer) := by
    intro w same
    rcases state with state | state <;> simp only [ParserInput.pass, same, state]
  induction t generalizing v with
  | nil =>
    have now := pass v rfl
    rw [rest.charAt_eq, host_override_end override (by simp) rfl] at now
    simpa [cutHost] using Returns.done now
  | cons c t ih =>
    have now := pass v rfl
    rw [rest.charAt_eq] at now
    by_cases stop : c = ':' ∧ v.insideBrackets = false ∨
        endsAuthority (isSpecial v.url) (some c) = true
    · rw [cutHost, if_pos stop]
      simp only [List.append_nil]
      by_cases colon : c = ':'
      · subst colon
        have outside : v.insideBrackets = false := by
          rcases stop with ⟨-, outside⟩ | ends
          · exact outside
          · simp [endsAuthority] at ends
        rw [ParserInput.host, if_pos ⟨rfl, outside⟩] at now
        exact returns_host_colon override rest now
      · have ends : endsAuthority (isSpecial v.url) (some c) = true := by
          rcases stop with ⟨same, -⟩ | ends
          · exact absurd same colon
          · exact ends
        rw [host_override_end override (by simpa using colon) ends] at now
        exact Returns.done now
    · rw [not_or] at stop
      have next : x.pass v = .next { v with
          buffer := v.buffer ++ [c]
          insideBrackets := if c = '[' then true else if c = ']' then false else v.insideBrackets } := by
        rw [now, List.head?_cons, ParserInput.host, if_neg (by simpa using stop.1), if_neg stop.2]
        simp
      apply Returns.char rest next rfl
      have result := ih (v := { v with
          buffer := v.buffer ++ [c]
          insideBrackets := if c = '[' then true else if c = ']' then false else v.insideBrackets
          pointer := v.pointer + 1 }) rest.next state pass
      have cut := cutHost_cons (t := t) (not_or.mpr stop)
      rw [cut]
      simpa using result

end States

section Runs

variable {native : Native} {input : Text} {u : URLRecord} {stateOverride : Option ParserState}

theorem parseInto_eq {base : Option URLRecord} {r : URLRecord × ParseEnd}
    (returns : Returns ⟨native, preprocess input, base, stateOverride⟩
      (initialVars u stateOverride) r) :
    parseInto native input base u stateOverride = r := by
  have enough := basicURLParse_isSome native input base u stateOverride
  rw [parseInto, basicURLParse]
  rw [basicURLParse] at enough
  rw [returns.eq enough]
  rfl

theorem basicURLParse_eq (base : Option URLRecord) :
    basicURLParse native input base u stateOverride
      = some (parseInto native input base u stateOverride) := by
  obtain ⟨r, found⟩ :=
    Option.isSome_iff_exists.mp (basicURLParse_isSome native input base u stateOverride)
  rw [parseInto, found]
  rfl

theorem parseInto_fragment :
    parseInto native input none { u with fragment := some [] } (some .fragment)
      = ({ u with fragment := some (utf8PercentEncode (preprocess input) fragmentExtra) }, .record) :=
  parseInto_eq (returns_fragment_encode (f := []) (rest_zero _) rfl rfl)

theorem parseInto_query :
    parseInto native input none { u with query := some [] } (some .query)
      = ({ u with query := some (utf8PercentEncode (preprocess input) (querySet u)) }, .record) :=
  parseInto_eq (returns_query_override rfl (rest_zero _) rfl rfl rfl)

theorem parseInto_port :
    parseInto native input none u (some .port)
      = withPort u ((preprocess input).takeWhile Char.isDigit) :=
  parseInto_eq (returns_port_override (v := initialVars u (some .port)) rfl (rest_zero _) rfl rfl)

theorem parseInto_schemeStart (lawful : native.Lawful) :
    parseInto native input none u (some .schemeStart)
      = match leadingScheme (preprocess input) with
        | some scheme => (withScheme u scheme, .record)
        | none => (u, .null) := by
  apply parseInto_eq
  have place := rest_zero (preprocess input)
  generalize preprocess input = cp at place ⊢
  cases cp with
  | nil => exact Returns.done rfl
  | cons c t =>
    have found : charAt (c :: t) 0 = some c := rfl
    by_cases alpha : isASCIIAlpha c = true
    · have char : isSchemeChar c = true := isSchemeChar_of_isAlpha alpha
      have lower : native.toLowerCase [c] = [c.toLower] :=
        toLowerCase_singleton (x := ⟨native, c :: t, none, some .schemeStart⟩) lawful
          (toLower_schemeChar char).1
      have pass : ParserInput.pass ⟨native, c :: t, none, some .schemeStart⟩
          (initialVars u (some .schemeStart)) =
          .next { initialVars u (some .schemeStart) with
            buffer := [c.toLower]
            state := .scheme } := by
        simp [ParserInput.pass, initialVars, ParserInput.schemeStart, found, Option.filter, alpha, lower]
      apply Returns.char place pass rfl
      have next := returns_scheme_override (x := ⟨native, c :: t, none, some .schemeStart⟩)
        (v := { initialVars u (some .schemeStart) with
          buffer := [c.toLower]
          state := .scheme
          pointer := 1 }) lawful rfl place.next rfl
      by_cases colon : (t.dropWhile isSchemeChar).head? = some ':'
      · have leading : leadingScheme (c :: t) = some ([c.toLower] ++ asciiLower
            (t.takeWhile isSchemeChar)) := by
          simp [leadingScheme, alpha, char, colon, asciiLower]
        rw [if_pos colon] at next
        rw [leading]
        exact next
      · have leading : leadingScheme (c :: t) = none := by
          simp [leadingScheme, char, colon]
        rw [if_neg colon] at next
        rw [leading]
        exact next
    · have leading : leadingScheme (c :: t) = none := by simp [leadingScheme, alpha]
      rw [leading]
      apply Returns.done
      simp [ParserInput.pass, initialVars, ParserInput.schemeStart, found, Option.filter, alpha]

theorem parseInto_host :
    parseInto native input none u (some .host)
      = withHostText native u false (cutHost (isSpecial u) false (preprocess input)).1
        (cutHost (isSpecial u) false (preprocess input)).2 :=
  parseInto_eq (returns_host_override (x := ⟨native, preprocess input, none, some .host⟩)
    (v := initialVars u (some .host)) rfl (rest_zero _) (.inl rfl))

theorem parseInto_hostname :
    parseInto native input none u (some .hostname)
      = withHostText native u true (cutHost (isSpecial u) false (preprocess input)).1
        (cutHost (isSpecial u) false (preprocess input)).2 :=
  parseInto_eq (returns_host_override (x := ⟨native, preprocess input, none, some .hostname⟩)
    (v := initialVars u (some .hostname)) rfl (rest_zero _) (.inr rfl))

end Runs

section Path

variable {x : ParserInput} {v : ParserVars} {u : URLRecord}

/-- Segments that a path may be made of. -/
structure ListOk (native : Native) (u : URLRecord) (l : List Text) : Prop where
  segments : ∀ s ∈ l, SegmentOk native (isSpecial u) s
  drive : DriveOk u.scheme l

/-- The path is being read into the record. -/
inductive PathInv (x : ParserInput) (u : URLRecord) (v : ParserVars) : Prop
  | pathStart (state : v.state = .pathStart) (url : v.url = { u with path := .segments [] })
    (buffer : v.buffer = [])
  | path (state : v.state = .path) (l : List Text) (url : v.url = { u with path := .segments l })
    (ok : ListOk x.native u l) (read : SegmentStage (isSpecial u) v.buffer)

/-- The path was read. -/
def PathPost (native : Native) (u url : URLRecord) (ended : ParseEnd) : Prop :=
  ended = .record ∧ ∃ l, url = { u with path := .segments l } ∧ ListOk native u l ∧
    (isSpecial u = true ∨ u.host = none → l ≠ [])

theorem listOk_nil {native : Native} : ListOk native u [] := ⟨by simp, driveOk_nil⟩

theorem sat_pathStart (lawful : x.native.Lawful) (override : x.stateOverride.isSome = true)
    (placed : Placed x.cp v) (url : v.url = { u with path := .segments [] })
    (buffer : v.buffer = []) :
    (x.pathStart v (charAt x.cp v.pointer)).Sat x (PathInv x u) (PathPost x.native u) := by
  have inv : ∀ pointer, PathInv x u { v with state := .path, pointer } := by
    intro pointer
    refine .path rfl [] url listOk_nil ?_
    simp only [buffer]
    exact segmentStage_nil
  have other : x.stateOverride.isNone = false := by
    rw [Option.isNone_eq_false_iff]
    exact override
  have special : isSpecial v.url = isSpecial u := by rw [url]; rfl
  unfold pathStart
  simp only [other, override, Bool.false_and, Bool.false_eq_true, if_false, Bool.true_and, special]
  split
  · split
    · exact sat_back placed (by simp) (inv _)
    · rename_i slash
      rw [not_and_or, not_not, not_not] at slash
      rcases slash with found | found
      · exact sat_char found (Int.le_refl _) (inv _)
      · exact sat_char found (Int.le_refl _) (inv _)
  · rename_i plain
    split
    · split
      · exact sat_back placed (by simp) (inv _)
      · rename_i found
        rw [not_not] at found
        exact sat_char found (Int.le_refl _) (inv _)
    · rename_i ended
      have ended' : charAt x.cp v.pointer = none := by simpa using ended
      split
      · refine sat_end placed ended' (Int.le_refl _) ⟨rfl, [[]], ?_, ⟨?_, ?_⟩, by simp⟩
        · simp [url, UrlPath.modify]
        · intro s member
          rw [List.mem_singleton.mp member]
          exact segmentOk_nil lawful
        · exact driveOk_nil.push fun _ _ no => by cases no
      · rename_i hosted
        refine sat_end placed ended' (Int.le_refl _) ⟨rfl, [], url, listOk_nil, ?_⟩
        rintro (yes | none)
        · exact absurd yes plain
        · rw [url] at hosted
          simp [none] at hosted

theorem sat_path (lawful : x.native.Lawful) (override : x.stateOverride.isSome = true)
    (placed : Placed x.cp v) (state : v.state = .path) {l : List Text}
    (url : v.url = { u with path := .segments l }) (ok : ListOk x.native u l)
    (read : SegmentStage (isSpecial u) v.buffer) :
    (x.path v (charAt x.cp v.pointer)).Sat x (PathInv x u) (PathPost x.native u) := by
  have other : x.stateOverride ≠ none := Option.isSome_iff_ne_none.mp override
  have special : isSpecial v.url = isSpecial u := by rw [url]; rfl
  obtain ⟨segments, drive, filled⟩ := pathSegment_segments (x := x) (u := v.url) (l := l) lawful
    (by rw [special]; exact ok.segments) (by rw [url]; exact ok.drive) (by rw [special]; exact read)
    (isSlash (isSpecial u) (charAt x.cp v.pointer))
  unfold path
  simp only [special, other, false_and, or_false]
  split
  · rename_i ends
    have path : ∀ slashish,
        { v.url with path := v.url.path.modify (x.pathSegment v.url v.buffer slashish) }
          = { u with path := .segments (x.pathSegment v.url v.buffer slashish l) } := by
      intro slashish
      simp [url, UrlPath.modify]
    have done : ListOk x.native u
        (x.pathSegment v.url v.buffer (isSlash (isSpecial u) (charAt x.cp v.pointer)) l) :=
      ⟨by rw [special] at segments; exact segments, by rw [url] at drive ⊢; exact drive⟩
    cases found : charAt x.cp v.pointer with
    | none =>
      rw [found] at done filled
      refine sat_end placed found (Int.le_refl _) ⟨rfl, _, path _, done, fun _ => filled ?_⟩
      simp [isSlash]
    | some c =>
      rw [found] at done ends
      have slash : isSlash (isSpecial u) (some c) = true := by simpa using ends
      have mark : c ≠ '?' ∧ c ≠ '#' := by
        refine ⟨?_, ?_⟩
        · rintro rfl
          simp [isSlash] at slash
        · rintro rfl
          simp [isSlash] at slash
      rw [if_neg (by simpa using mark.1), if_neg (by simpa using mark.2)]
      exact sat_char found (Int.le_refl _) (.path state _ (path _) done segmentStage_nil)
  · rename_i inside
    rw [not_or] at inside
    cases found : charAt x.cp v.pointer with
    | none => exact absurd found inside.1
    | some c =>
      rw [found] at inside
      refine sat_char found (Int.le_refl _) (.path state l url ok ?_)
      exact segmentStage_append read (Bool.eq_false_iff.mpr inside.2)

theorem sat_pathOverride (lawful : x.native.Lawful) (override : x.stateOverride.isSome = true)
    (placed : Placed x.cp v) (inv : PathInv x u v) :
    (x.pass v).Sat x (PathInv x u) (PathPost x.native u) := by
  cases inv with
  | pathStart state url buffer =>
    simp only [ParserInput.pass, state]
    exact sat_pathStart lawful override placed url buffer
  | path state l url ok read =>
    simp only [ParserInput.pass, state]
    exact sat_path lawful override placed state url ok read

theorem parseInto_pathStart {native : Native} (lawful : native.Lawful) (input : Text) :
    ∃ l, parseInto native input none { u with path := .segments [] } (some .pathStart)
        = ({ u with path := .segments l }, .record) ∧ ListOk native u l ∧
      (isSpecial u = true ∨ u.host = none → l ≠ []) := by
  have found : basicURLParse native input none { u with path := .segments [] } (some .pathStart)
      = some (parseInto native input none { u with path := .segments [] } (some .pathStart)) :=
    basicURLParse_eq none
  generalize parseInto native input none { u with path := .segments [] } (some .pathStart) = r
    at found ⊢
  obtain ⟨url, ended⟩ := r
  obtain ⟨rfl, l, rfl, ok, filled⟩ :=
    run_rule (x := ⟨native, preprocess input, none, some .pathStart⟩)
      (fun v placed inv => sat_pathOverride (u := u) lawful rfl placed inv) _ (placed_initialVars _)
      (.pathStart rfl rfl rfl) found
  exact ⟨l, rfl, ok, filled⟩

end Path

end QjsLws.Url
