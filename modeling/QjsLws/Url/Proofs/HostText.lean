import QjsLws.Url.Parts
import QjsLws.Url.Proofs.Parse

/-!
# The host that is parsed

The parser passes exactly the host text of its input to `parseHost`, and nothing else it does
throws.
-/

namespace QjsLws.Url

open QjsLws.Misc ParserInput

section Parts

variable {native : Native} {special : Bool} {t u : Text}

theorem afterUserinfo_of_not_mem (absent : '@' ∉ t) : afterUserinfo t = t := by
  unfold afterUserinfo
  rw [List.rtakeWhile_eq_self_iff]
  rintro c member
  simp only [decide_eq_true_eq]
  rintro rfl
  exact absent member

/-- Only what follows an `@` matters. -/
theorem afterUserinfo_append (t u : Text) : afterUserinfo (t ++ '@' :: u) = afterUserinfo u := by
  unfold afterUserinfo List.rtakeWhile
  rw [List.reverse_append, List.reverse_cons, List.append_assoc, List.singleton_append,
    List.takeWhile_append]
  split
  · rename_i whole
    have all : u.reverse.takeWhile (fun c => decide (c ≠ '@')) = u.reverse :=
      List.IsPrefix.eq_of_length (List.takeWhile_prefix _) whole
    rw [List.takeWhile_cons, if_neg (by simp), List.append_nil, all]
  · rfl

theorem authorityText_append (plain : ∀ c ∈ t, endsAuthority special (some c) = false) (u : Text) :
    authorityText special (t ++ u) = t ++ authorityText special u := by
  unfold authorityText
  rw [List.takeWhile_append_of_pos]
  intro c member
  simp [plain c member]

theorem authorityText_ended (ended : endsAuthority special t.head? = true) :
    authorityText special t = [] := by
  cases t with
  | nil => rfl
  | cons c t =>
    rw [List.head?_cons] at ended
    rw [authorityText, List.takeWhile_cons, if_neg (by simp [ended])]

theorem authorityText_cons {c : Char} (plain : endsAuthority special (some c) = false) :
    authorityText special (c :: t) = c :: authorityText special t := by
  rw [authorityText, List.takeWhile_cons, if_pos (by simp [plain])]
  rfl

end Parts

section Errors

variable {native : Native} {special : Bool} {t : Text}

theorem sockAddr46Address_eq_error {e : JsError} (failed : sockAddr46Address native t = .error e) :
    ∃ rest, cString t = '[' :: rest ∧ ']' ∉ rest := by
  unfold sockAddr46Address at failed
  split at failed
  · rename_i rest text
    split at failed
    · cases failed
    · rename_i unclosed
      exact ⟨rest, text, by simpa using unclosed⟩
  · cases failed

theorem sockAddr46Address_unclosed {rest : Text} (text : cString t = '[' :: rest)
    (unclosed : ']' ∉ rest) : ∃ e, sockAddr46Address native t = .error e := by
  unfold sockAddr46Address
  simp only [text]
  rw [if_neg (by simpa using unclosed)]
  exact ⟨_, rfl⟩

theorem parseHost_nil : ∃ result, parseHost native [] special = .ok result := by
  cases special with
  | false => exact ⟨_, rfl⟩
  | true => exact ⟨_, rfl⟩

/-- A domain that passed the checks is never refused with an exception. -/
theorem parseIPv4_domain (allowed : ∀ c ∈ t, forbiddenInDomain c = false) :
    ∃ result, parseIPv4 native t = .ok result := by
  unfold parseIPv4
  cases found : sockAddr46Address native t with
  | ok result => exact ⟨_, rfl⟩
  | error e =>
    obtain ⟨rest, text, -⟩ := sockAddr46Address_eq_error found
    have bracket : '[' ∈ t := by
      have front : '[' ∈ cString t := by simp [text]
      exact List.takeWhile_subset _ front
    have refused := not_forbidden_of_domain (allowed _ bracket)
    exact absurd (by decide) refused.1

/-- When `parseHost` throws. -/
theorem parseHost_error_iff :
    (∃ e, parseHost native t special = .error e) ↔ UnreadableHost special t := by
  constructor
  · rintro ⟨e, failed⟩
    unfold parseHost at failed
    split at failed
    · rename_i first
      split at failed
      · cases failed
      · rename_i last
        cases found : parseIPv6 native t.tail.dropLast with
        | ok result => simp [found, Except.map] at failed
        | error e' =>
          unfold parseIPv6 at found
          cases address : sockAddr46Address native t.tail.dropLast with
          | ok result => simp [address, Except.map] at found
          | error e'' =>
            obtain ⟨rest, text, unclosed⟩ := sockAddr46Address_eq_error address
            exact .inl ⟨_, rest, eq_bracketed first (not_not.mp last), text, unclosed⟩
    · rename_i first
      cases special with
      | false => cases failed
      | true =>
        simp only [Bool.not_true, Bool.false_eq_true, if_false] at failed
        split at failed
        · cases failed
        · split at failed
          · rename_i e' undecodable
            exact .inr ⟨rfl, first, e', undecodable⟩
          · rename_i domain decoded
            split at failed
            · cases failed
            · rename_i allowed
              split at failed
              · obtain ⟨result, fine⟩ := @parseIPv4_domain native
                  (native.toLowerCase domain) (by simpa using allowed)
                simp [fine, Except.map] at failed
              · cases failed
  · rintro (⟨x, rest, rfl, text, unclosed⟩ | ⟨rfl, first, e, undecodable⟩)
    · obtain ⟨e, failed⟩ := @sockAddr46Address_unclosed native _ _ text unclosed
      refine ⟨e, ?_⟩
      rw [parseHost_bracketed, parseIPv6, failed]
      rfl
    · have filled : t ≠ [] := by
        rintro rfl
        rw [percentDecodeString_of_not_mem (by simp)] at undecodable
        cases undecodable
      refine ⟨e, ?_⟩
      rw [parseHost, if_neg first]
      simp [filled, undecodable]

end Errors

/-- `parseHost` returns for the host text. -/
def Readable (x : ParserInput) : Prop :=
  ∀ special name, hostText x.native x.cp x.base = some (special, name) →
    ∃ result, parseHost x.native name special = .ok result

/-- What the variables say about the host text, where `t` is the rest of the input. -/
inductive HostStage (x : ParserInput) (v : ParserVars) (t : Text) : Prop
  | schemeStart (state : v.state = .schemeStart) (start : t = x.cp)
  | scheme (state : v.state = .scheme) (read : Text) (input : x.cp = read ++ t)
    (first : read.head?.any isASCIIAlpha = true) (chars : ∀ c ∈ read, isSchemeChar c = true)
    (buffer : v.buffer = read.flatMap fun c => x.native.toLowerCase [c])
  | noScheme (state : v.state = .noScheme) (start : t = x.cp)
    (unsplit : splitScheme x.native x.cp = none)
  | specialRelative (state : v.state = .specialRelativeOrAuthority) (base : URLRecord)
    (based : x.base = some base) (special : isSpecialScheme base.scheme = true)
    (same : v.url.scheme = base.scheme)
    (text : hostText x.native x.cp x.base = sameSchemeHost t)
  | pathOrAuthority (state : v.state = .pathOrAuthority) (special : isSpecial v.url = false)
    (text : hostText x.native x.cp x.base
      = if t.head? = some '/' then some (false, authorityHost false t.tail) else none)
  | relative (state : v.state = .relative) (base : URLRecord) (based : x.base = some base)
    (text : hostText x.native x.cp x.base = relativeHost (isSpecialScheme base.scheme) t)
  | relativeSlash (state : v.state = .relativeSlash) (based : x.base.isSome = true)
    (text : hostText x.native x.cp x.base = slashHost (isSpecial v.url) t)
  | slashes (state : v.state = .specialAuthoritySlashes ∨ v.state = .specialAuthorityIgnoreSlashes)
    (special : isSpecial v.url = true)
    (text : hostText x.native x.cp x.base
      = some (true, authorityHost true (t.dropWhile isAnySlash)))
  | authority (state : v.state = .authority)
    (place : Rest x.cp (v.pointer - v.buffer.length) (v.buffer ++ t))
    (plain : ∀ c ∈ v.buffer, c ≠ '@' ∧ endsAuthority (isSpecial v.url) (some c) = false)
    (text : hostText x.native x.cp x.base
      = some (isSpecial v.url, authorityHost (isSpecial v.url) (v.buffer ++ t)))
  | host (state : v.state = .host)
    (text : hostText x.native x.cp x.base
      = some (isSpecial v.url,
          v.buffer ++ beforePort v.insideBrackets (authorityText (isSpecial v.url) t)))
  | file (state : v.state = .file) (text : hostText x.native x.cp x.base = fileHostOf t)
  | fileSlash (state : v.state = .fileSlash) (special : isSpecial v.url = true)
    (text : hostText x.native x.cp x.base = fileSlashHost t)
  | fileHost (state : v.state = .fileHost) (special : isSpecial v.url = true)
    (text : hostText x.native x.cp x.base = fileHostName (v.buffer ++ authorityText true t))
  | settled (state : 8 < v.state.rank) (readable : Readable x)

/-- The invariant of the loop. -/
structure HostInv (x : ParserInput) (v : ParserVars) : Prop where
  stage : ∃ t, Rest x.cp v.pointer t ∧ HostStage x v t
  outside : v.state.rank < 8 → v.insideBrackets = false

/-- The run throws exactly what `parseHost` throws for the host text. -/
def HostPost (x : ParserInput) (_ : URLRecord) (ended : ParseEnd) : Prop :=
  ∀ e, ended = .threw e ↔ ∃ special name, hostText x.native x.cp x.base = some (special, name) ∧
    parseHost x.native name special = .error e

/-- What a pass has to establish. -/
abbrev KeepsHost (x : ParserInput) (p : Pass) : Prop := p.Sat x (HostInv x) (HostPost x)

section Steps

variable {x : ParserInput} {v v' : ParserVars} {t : Text} {c : Char}

theorem hostPost_of_readable (readable : Readable x) {url : URLRecord} {ended : ParseEnd}
    (quiet : ∀ e, ended ≠ .threw e) : HostPost x url ended := by
  intro e
  constructor
  · intro threw
    exact absurd threw (quiet e)
  · rintro ⟨special, name, text, failed⟩
    obtain ⟨result, fine⟩ := readable special name text
    rw [fine] at failed
    cases failed

theorem readable_of_none (text : hostText x.native x.cp x.base = none) : Readable x := by
  intro special name found
  rw [text] at found
  cases found

theorem readable_of_nil {special : Bool}
    (text : hostText x.native x.cp x.base = some (special, [])) : Readable x := by
  intro special' name found
  rw [text] at found
  cases found
  exact parseHost_nil

/-- A pass that consumes a character. -/
theorem keepsHost_char (rest : Rest x.cp v.pointer (c :: t)) (same : v'.pointer = v.pointer)
    (stage : HostStage x v'.advance t)
    (outside : v'.state.rank < 8 → v'.insideBrackets = false) : KeepsHost x (.next v') := by
  have length := rest.length_eq
  rw [List.length_cons] at length
  refine ⟨fun _ => ⟨⟨t, ?_, stage⟩, outside⟩, fun far => by omega⟩
  rw [ParserVars.advance, same]
  exact rest.next

/-- A pass that leaves the character to the next state. -/
theorem keepsHost_back (rest : Rest x.cp v.pointer t) (same : v'.pointer = v.pointer - 1)
    (stage : HostStage x v'.advance t)
    (outside : v'.state.rank < 8 → v'.insideBrackets = false) : KeepsHost x (.next v') := by
  have length := rest.length_eq
  refine ⟨fun _ => ⟨⟨t, ?_, stage⟩, outside⟩, fun far => by omega⟩
  rw [ParserVars.advance, same, Int.sub_add_cancel]
  exact rest

/-- A pass that consumes a character after which no host is parsed any more. -/
theorem keepsHost_over (rest : Rest x.cp v.pointer (c :: t)) (same : v'.pointer = v.pointer)
    (later : 8 < v'.state.rank) (readable : Readable x) : KeepsHost x (.next v') :=
  keepsHost_char rest same (.settled later readable) fun early => by omega

/-- A pass that leaves the character to a state in which no host is parsed any more. -/
theorem keepsHost_leave (rest : Rest x.cp v.pointer t) (same : v'.pointer = v.pointer - 1)
    (later : 8 < v'.state.rank) (readable : Readable x) : KeepsHost x (.next v') :=
  keepsHost_back rest same (.settled later readable) fun early => by omega

/-- A pass at the end of the input. -/
theorem keepsHost_end (rest : Rest x.cp v.pointer []) (same : v'.pointer = v.pointer)
    (readable : Readable x) : KeepsHost x (.next v') := by
  have length := rest.length_eq
  rw [List.length_nil] at length
  exact ⟨fun inside => by omega, fun _ => hostPost_of_readable readable fun e => by simp⟩

theorem keepsHost_null (readable : Readable x) {url : URLRecord} :
    KeepsHost x (.done url .null) := by
  show HostPost x url .null
  exact hostPost_of_readable readable fun e => by simp

/-- Once the host was parsed nothing throws. -/
theorem keepsHost_settled (override : x.stateOverride = none) (placed : Placed x.cp v)
    (state : 8 < v.state.rank) (readable : Readable x) : KeepsHost x (x.pass v) := by
  have moves := moves_pass (x := x) placed
  cases result : x.pass v with
  | next v' =>
    rw [result] at moves
    have later : 8 < v'.state.rank := by
      rcases moves.forward with further | ⟨same, -⟩
      · omega
      · rwa [same]
    have low := moves.low
    refine ⟨fun inside => ⟨⟨x.cp.drop (v'.pointer + 1).toNat, ?_, .settled later readable⟩, ?_⟩,
      fun _ => hostPost_of_readable readable fun e => by simp⟩
    · refine ⟨x.cp.take (v'.pointer + 1).toNat, (List.take_append_drop _ _).symm, ?_⟩
      simp only [ParserVars.advance] at low ⊢
      rw [List.length_take]
      omega
    · intro early
      simp only [ParserVars.advance] at early
      omega
  | done url ended =>
    apply hostPost_of_readable readable
    rintro e rfl
    unfold ParserInput.pass at result
    cases at_ : v.state <;> rw [at_] at state result <;> simp only [ParserState.rank] at state
    all_goals try omega
    · simp only [ParserInput.port, override] at result
      split_ifs at result
      all_goals simp at result
    · simp only [ParserInput.pathStart, override] at result
      split_ifs at result
    · simp only [ParserInput.path] at result
      split_ifs at result
    · simp only [ParserInput.opaquePath] at result
      split at result <;> try split at result
      all_goals try split at result
      all_goals cases result
    · simp only [ParserInput.query] at result
      split_ifs at result
    · cases result

theorem startsWithSlashes_cons :
    startsWithSlashes (c :: t) = true ↔ c = '/' ∧ t.head? = some '/' := by
  rw [startsWithSlashes, Bool.and_eq_true, decide_eq_true_iff, decide_eq_true_iff, List.head?_cons,
    Option.some.injEq, List.tail_cons]

/-- Where the scheme ends. -/
theorem splitScheme_read {native : Native} {read : Text}
    (first : read.head?.any isASCIIAlpha = true) (chars : ∀ c ∈ read, isSchemeChar c = true)
    (ended : t.head?.any isSchemeChar = false) :
    splitScheme native (read ++ t)
      = if t.head? = some ':' then some (read.flatMap fun c => native.toLowerCase [c], t.tail)
        else none := by
  have alpha : (read ++ t).head?.any isASCIIAlpha = true := by
    cases read with
    | nil => cases first
    | cons c read => exact first
  have stop : t.takeWhile isSchemeChar = [] ∧ t.dropWhile isSchemeChar = t := by
    cases t with
    | nil => exact ⟨rfl, rfl⟩
    | cons c t =>
      have plain : isSchemeChar c = false := ended
      simp [plain]
  have taken : (read ++ t).takeWhile isSchemeChar = read := by
    rw [List.takeWhile_append_of_pos chars, stop.1, List.append_nil]
  have dropped : (read ++ t).dropWhile isSchemeChar = t := by
    rw [List.dropWhile_append_of_pos chars, stop.2]
  rw [splitScheme, taken, dropped]
  simp only [alpha, true_and]

/-- A text that does not start with a letter has no scheme. -/
theorem splitScheme_eq_none {native : Native} (other : t.head?.filter isASCIIAlpha = none) :
    splitScheme native t = none := by
  rw [splitScheme, if_neg]
  rintro ⟨alpha, -⟩
  cases first : t.head? with
  | none => simp [first] at alpha
  | some c =>
    have alpha : isASCIIAlpha c = true := by simpa [first] using alpha
    simp [first, Option.filter, alpha] at other

theorem keepsHost_schemeStart (override : x.stateOverride = none)
    (rest : Rest x.cp v.pointer t) (start : t = x.cp) (buffer : v.buffer = [])
    (outside : v.insideBrackets = false) : KeepsHost x (x.schemeStart v t.head?) := by
  unfold ParserInput.schemeStart
  split
  · rename_i c found
    obtain ⟨first, alpha⟩ := Option.filter_eq_some_iff.mp found
    obtain ⟨t', rfl⟩ := List.head?_eq_some_iff.mp first
    refine keepsHost_char rest rfl (.scheme rfl [c] start.symm alpha ?_ ?_) fun _ => outside
    · intro d member
      rw [List.mem_singleton.mp member]
      exact isSchemeChar_of_isAlpha alpha
    · simp [buffer]
  · rename_i found
    rw [override]
    refine keepsHost_back rest rfl (.noScheme rfl start ?_) fun _ => outside
    exact splitScheme_eq_none (start ▸ found)

theorem keepsHost_schemeRead (rest : Rest x.cp v.pointer (':' :: t))
    (split : hostText x.native x.cp x.base = schemeHost x.base v.buffer t)
    (outside : v.insideBrackets = false) : KeepsHost x (.next (x.schemeRead v)) := by
  have ahead : charAt x.cp (v.pointer + 1) = t.head? := rest.next.charAt_eq
  unfold schemeHost at split
  unfold ParserInput.schemeRead
  dsimp only
  rw [ahead]
  split_ifs with file same special slash
  · rw [if_pos file] at split
    exact keepsHost_char rest rfl (.file rfl split) fun _ => outside
  · obtain ⟨special, based⟩ := Bool.and_eq_true_iff.mp same
    obtain ⟨base, isBase, scheme⟩ : ∃ base, x.base = some base ∧ base.scheme = v.buffer := by
      cases isBase : x.base with
      | none => simp [isBase] at based
      | some base => exact ⟨base, rfl, by simpa [isBase] using based⟩
    have special : isSpecialScheme v.buffer = true := special
    rw [if_neg file, if_pos special, if_pos based] at split
    refine keepsHost_char rest rfl (.specialRelative rfl base isBase ?_ ?_ split) fun _ => outside
    · rw [scheme]
      exact special
    · exact scheme.symm
  · have special : isSpecialScheme v.buffer = true := special
    have other : ¬(x.base.any fun base => decide (base.scheme = v.buffer)) = true := by
      intro based
      exact same (by simpa [isSpecial, special] using based)
    rw [if_neg file, if_pos special, if_neg other] at split
    exact keepsHost_char rest rfl (.slashes (.inl rfl) special split) fun _ => outside
  · have plain : ¬isSpecialScheme v.buffer = true := special
    obtain ⟨t', rfl⟩ := List.head?_eq_some_iff.mp slash
    rw [if_neg file, if_neg plain] at split
    refine keepsHost_char (v := { v with pointer := v.pointer + 1 }) rest.next rfl
      (.pathOrAuthority rfl (by simpa [isSpecial] using plain) ?_) fun _ => outside
    simp [split, startsWithSlashes_cons]
  · have plain : ¬isSpecialScheme v.buffer = true := special
    have single : ¬startsWithSlashes t = true := by
      intro double
      apply slash
      simpa [startsWithSlashes] using And.left (by simpa [startsWithSlashes] using double)
    rw [if_neg file, if_neg plain, if_neg single] at split
    exact keepsHost_over rest rfl (by simp [ParserState.rank]) (readable_of_none split)

theorem ended_of_filter (found : t.head?.filter isSchemeChar = none) :
    t.head?.any isSchemeChar = false := by
  cases next : t.head? with
  | none => rfl
  | some c =>
    rw [next] at found
    cases char : isSchemeChar c with
    | true => simp [Option.filter, char] at found
    | false => exact char

theorem keepsHost_scheme (override : x.stateOverride = none) (rest : Rest x.cp v.pointer t)
    (state : v.state = .scheme) {read : Text} (input : x.cp = read ++ t)
    (first : read.head?.any isASCIIAlpha = true) (chars : ∀ c ∈ read, isSchemeChar c = true)
    (buffer : v.buffer = read.flatMap fun c => x.native.toLowerCase [c])
    (outside : v.insideBrackets = false) : KeepsHost x (x.scheme v t.head?) := by
  unfold ParserInput.scheme
  split
  · rename_i c found
    obtain ⟨next, char⟩ := Option.filter_eq_some_iff.mp found
    obtain ⟨t', rfl⟩ := List.head?_eq_some_iff.mp next
    refine keepsHost_char rest rfl (.scheme state (read ++ [c]) ?_ ?_ ?_ ?_) fun _ => outside
    · rw [input, List.append_assoc, List.singleton_append]
    · cases read with
      | nil => cases first
      | cons d read => exact first
    · intro d member
      rcases List.mem_append.mp member with earlier | new
      · exact chars d earlier
      · rw [List.mem_singleton.mp new]
        exact char
    · simp [buffer]
  · rename_i found
    have split := @splitScheme_read _ x.native _ first chars (ended_of_filter found)
    rw [← input] at split
    rw [override]
    split_ifs with colon
    · obtain ⟨t', rfl⟩ := List.head?_eq_some_iff.mp colon
      refine keepsHost_schemeRead rest ?_ outside
      simp only [hostText, split, List.head?_cons, if_true, buffer, List.tail_cons]
    · rw [if_neg colon] at split
      refine ⟨fun _ => ⟨⟨x.cp, rest_zero _, .noScheme rfl rfl split⟩, fun _ => outside⟩, ?_⟩
      intro far
      simp only at far
      omega

theorem keepsHost_noScheme (rest : Rest x.cp v.pointer t) (start : t = x.cp)
    (unsplit : splitScheme x.native x.cp = none) (outside : v.insideBrackets = false) :
    KeepsHost x (x.noScheme v t.head?) := by
  have text : hostText x.native x.cp x.base = baseHost x.base t := by rw [hostText, unsplit, start]
  unfold ParserInput.noScheme
  unfold baseHost at text
  split
  · rename_i based
    rw [based] at text
    exact keepsHost_null (readable_of_none (by rwa [based]))
  · rename_i base based
    simp only [based] at text
    rw [← based] at text
    split_ifs with list mark notFile
    · rw [if_pos list] at text
      obtain ⟨t', rfl⟩ := List.head?_eq_some_iff.mp mark
      exact keepsHost_over rest rfl (by simp [ParserState.rank]) (readable_of_none text)
    · rw [if_pos list] at text
      exact keepsHost_null (readable_of_none text)
    · rw [if_neg list, if_neg (by simpa using notFile)] at text
      exact keepsHost_back rest rfl (.relative rfl base based text) fun _ => outside
    · rw [if_neg list, if_pos (by simpa using notFile)] at text
      exact keepsHost_back rest rfl (.file rfl text) fun _ => outside

theorem keepsHost_specialRelative (rest : Rest x.cp v.pointer t) {base : URLRecord}
    (based : x.base = some base) (special : isSpecialScheme base.scheme = true)
    (same : v.url.scheme = base.scheme)
    (text : hostText x.native x.cp x.base = sameSchemeHost t) (outside : v.insideBrackets = false) :
    KeepsHost x (x.specialRelativeOrAuthority v t.head?) := by
  unfold sameSchemeHost at text
  unfold ParserInput.specialRelativeOrAuthority
  split_ifs with slashes
  · obtain ⟨t', rfl⟩ : ∃ t', t = '/' :: '/' :: t' := by
      cases t with
      | nil => cases slashes.1
      | cons c t' =>
        cases slashes.1
        have second := slashes.2
        rw [rest.next.charAt_eq] at second
        cases t' with
        | nil => cases second
        | cons d t' =>
          cases second
          exact ⟨t', rfl⟩
    refine keepsHost_char (v := { v with pointer := v.pointer + 1 }) rest.next rfl
      (.slashes (.inr rfl) ?_ ?_) fun _ => outside
    · simp [isSpecial, same, special]
    · rw [text, if_pos (by simp [startsWithSlashes])]
      simp [isAnySlash]
  · refine keepsHost_back rest rfl (.relative rfl base based ?_) fun _ => outside
    rw [text, special, if_neg]
    intro double
    apply slashes
    cases t with
    | nil => cases double
    | cons c t' =>
      obtain ⟨first, second⟩ := startsWithSlashes_cons.mp double
      exact ⟨by rw [first]; rfl, by rw [rest.next.charAt_eq]; exact second⟩

theorem keepsHost_pathOrAuthority (rest : Rest x.cp v.pointer t)
    (buffer : v.buffer = []) (special : isSpecial v.url = false)
    (text : hostText x.native x.cp x.base
      = if t.head? = some '/' then some (false, authorityHost false t.tail) else none)
    (outside : v.insideBrackets = false) : KeepsHost x (pathOrAuthority v t.head?) := by
  unfold ParserInput.pathOrAuthority
  split_ifs with slash
  · obtain ⟨t', rfl⟩ := List.head?_eq_some_iff.mp slash
    rw [if_pos slash] at text
    refine keepsHost_char rest rfl (.authority rfl ?_ ?_ ?_) fun _ => outside
    · simpa [buffer] using rest.next
    · simp [buffer]
    · simpa [buffer, special] using text
  · rw [if_neg slash] at text
    exact keepsHost_leave rest rfl (by simp [ParserState.rank]) (readable_of_none text)

/-- A path was inherited: no host is parsed any more. -/
theorem keepsHost_afterInherited (rest : Rest x.cp v.pointer t) (url : URLRecord)
    (readable : Readable x) (pop : UrlPath → UrlPath) :
    KeepsHost x (afterInherited { v with url } t.head? pop) := by
  unfold afterInherited
  cases t with
  | nil =>
    simp only [List.head?_nil, reduceCtorEq, if_false, Option.isSome_none, Bool.false_eq_true]
    exact keepsHost_end rest rfl readable
  | cons c t =>
    split_ifs
    · exact keepsHost_over rest rfl (by simp [ParserState.rank]) readable
    · exact keepsHost_over rest rfl (by simp [ParserState.rank]) readable
    · exact keepsHost_leave rest rfl (by simp [ParserState.rank]) readable
    · rename_i none
      exact absurd rfl none

theorem keepsHost_relative (rest : Rest x.cp v.pointer t) {base : URLRecord}
    (based : x.base = some base)
    (text : hostText x.native x.cp x.base = relativeHost (isSpecialScheme base.scheme) t)
    (outside : v.insideBrackets = false) : KeepsHost x (x.relative v t.head?) := by
  unfold ParserInput.relative
  simp only [based]
  cases t with
  | nil =>
    rw [if_neg (by simp [isSlash])]
    exact keepsHost_afterInherited rest _ (readable_of_none text) _
  | cons c t =>
    rw [relativeHost] at text
    by_cases slash : isSlash (isSpecialScheme base.scheme) (some c) = true
    · rw [if_pos slash] at text
      rw [if_pos (by exact slash)]
      exact keepsHost_char rest rfl (.relativeSlash rfl (by simp [based]) text) fun _ => outside
    · rw [if_neg slash] at text
      rw [if_neg (by exact slash)]
      exact keepsHost_afterInherited rest _ (readable_of_none text) _

theorem keepsHost_authority_start (rest : Rest x.cp v.pointer t) (buffer : v.buffer = [])
    (state : v.state = .authority)
    (text : hostText x.native x.cp x.base
      = some (isSpecial v.url, authorityHost (isSpecial v.url) t)) : HostStage x v t := by
  refine .authority state ?_ ?_ ?_
  · simpa [buffer] using rest
  · simp [buffer]
  · simpa [buffer] using text

theorem keepsHost_relativeSlash (rest : Rest x.cp v.pointer t) (based : x.base.isSome = true)
    (buffer : v.buffer = [])
    (text : hostText x.native x.cp x.base = slashHost (isSpecial v.url) t)
    (outside : v.insideBrackets = false) : KeepsHost x (x.relativeSlash v t.head?) := by
  obtain ⟨base, based⟩ := Option.isSome_iff_exists.mp based
  unfold ParserInput.relativeSlash
  cases t with
  | nil =>
    rw [slashHost] at text
    rw [if_neg (by simp), if_neg (by simp)]
    simp only [based]
    exact keepsHost_leave rest rfl (by simp [ParserState.rank]) (readable_of_none text)
  | cons c t =>
    rw [slashHost] at text
    cases special : isSpecial v.url with
    | true =>
      simp only [special, if_true] at text
      by_cases slash : isSlash true (some c) = true
      · rw [if_pos slash] at text
        have both : c = '/' ∨ c = '\\' := by simpa [isSlash] using slash
        rw [if_pos (by simpa using both)]
        exact keepsHost_char rest rfl (.slashes (.inr rfl) special text) fun _ => outside
      · rw [if_neg slash] at text
        have neither : ¬(c = '/' ∨ c = '\\') := by simpa [isSlash] using slash
        rw [not_or] at neither
        rw [if_neg (by simpa using neither), if_neg (by simpa using neither.1)]
        simp only [based]
        exact keepsHost_leave rest rfl (by simp [ParserState.rank]) (readable_of_none text)
    | false =>
      simp only [special, Bool.false_eq_true, if_false] at text
      rw [if_neg (by simp)]
      by_cases slash : c = '/'
      · subst slash
        rw [if_pos (by simp [isSlash])] at text
        rw [if_pos (by simp)]
        refine keepsHost_char rest rfl ?_ fun _ => outside
        refine keepsHost_authority_start rest.next buffer rfl ?_
        simpa [special] using text
      · rw [if_neg (by simpa [isSlash] using slash)] at text
        rw [if_neg (by simpa using slash)]
        simp only [based]
        exact keepsHost_leave rest rfl (by simp [ParserState.rank]) (readable_of_none text)

theorem keepsHost_slashes (rest : Rest x.cp v.pointer t) (special : isSpecial v.url = true)
    (text : hostText x.native x.cp x.base = some (true, authorityHost true (t.dropWhile isAnySlash)))
    (outside : v.insideBrackets = false) : KeepsHost x (x.specialAuthoritySlashes v t.head?) := by
  unfold ParserInput.specialAuthoritySlashes
  split_ifs with slashes
  · obtain ⟨t', rfl⟩ := List.head?_eq_some_iff.mp slashes.1
    have second := slashes.2
    rw [rest.next.charAt_eq] at second
    obtain ⟨t'', rfl⟩ := List.head?_eq_some_iff.mp second
    refine keepsHost_char (v := { v with pointer := v.pointer + 1 }) rest.next rfl
      (.slashes (.inr rfl) special ?_) fun _ => outside
    simpa [isAnySlash] using text
  · exact keepsHost_back rest rfl (.slashes (.inr rfl) special text) fun _ => outside

theorem keepsHost_ignoreSlashes (rest : Rest x.cp v.pointer t) (buffer : v.buffer = [])
    (state : v.state = .specialAuthorityIgnoreSlashes) (special : isSpecial v.url = true)
    (text : hostText x.native x.cp x.base = some (true, authorityHost true (t.dropWhile isAnySlash)))
    (outside : v.insideBrackets = false) :
    KeepsHost x (specialAuthorityIgnoreSlashes v t.head?) := by
  unfold ParserInput.specialAuthorityIgnoreSlashes
  split_ifs with other
  · refine keepsHost_back rest rfl (keepsHost_authority_start ?_ buffer rfl ?_) fun _ => outside
    · simpa using rest
    · have kept : t.dropWhile isAnySlash = t := by
        cases t with
        | nil => rfl
        | cons c t =>
          rw [List.dropWhile_cons, if_neg]
          simpa [isAnySlash] using other
      rw [kept] at text
      simpa [special] using text
  · cases t with
    | nil => simp at other
    | cons c t =>
      have slash : isAnySlash c = true := by
        simp only [List.head?_cons, ne_eq, Option.some.injEq, not_and, not_not] at other
        by_cases first : c = '/'
        · simp [isAnySlash, first]
        · simp [isAnySlash, other first]
      refine keepsHost_char rest rfl (.slashes (.inr state) special ?_) fun _ => outside
      rw [text, List.dropWhile_cons, if_pos slash]

/-- The credentials are not looked at again. -/
theorem authorityHost_at {special : Bool} {buffer : Text}
    (plain : ∀ c ∈ buffer, c ≠ '@' ∧ endsAuthority special (some c) = false) :
    authorityHost special (buffer ++ '@' :: t) = authorityHost special t := by
  have at_ : endsAuthority special (some '@') = false := by cases special <;> rfl
  rw [authorityHost, authorityText_append fun c member => (plain c member).2,
    authorityText_cons at_, afterUserinfo_append]
  rfl

/-- The host of an authority without credentials. -/
theorem authorityHost_plain {special : Bool} {buffer : Text}
    (plain : ∀ c ∈ buffer, c ≠ '@' ∧ endsAuthority special (some c) = false)
    (ended : endsAuthority special t.head? = true) :
    authorityHost special (buffer ++ t) = beforePort false buffer := by
  rw [authorityHost, authorityText_append fun c member => (plain c member).2,
    authorityText_ended ended, List.append_nil,
    afterUserinfo_of_not_mem fun member => (plain _ member).1 rfl]

/-- The fields that reading the credentials leaves alone. -/
theorem foldl_userinfoChar (buffer : Text) :
    ∀ v : ParserVars, let w := buffer.foldl userinfoChar v
      (w.url.scheme = v.url.scheme ∧ w.url.query = v.url.query) ∧ w.state = v.state ∧
        w.pointer = v.pointer ∧ w.insideBrackets = v.insideBrackets := by
  induction buffer with
  | nil => exact fun v => ⟨⟨rfl, rfl⟩, rfl, rfl, rfl⟩
  | cons c buffer ih =>
    intro v
    have step : ((userinfoChar v c).url.scheme = v.url.scheme ∧
        (userinfoChar v c).url.query = v.url.query) ∧
        (userinfoChar v c).state = v.state ∧ (userinfoChar v c).pointer = v.pointer ∧
        (userinfoChar v c).insideBrackets = v.insideBrackets := by
      unfold userinfoChar
      dsimp only
      split_ifs <;> exact ⟨⟨rfl, rfl⟩, rfl, rfl, rfl⟩
    obtain ⟨⟨scheme, query⟩, state, pointer, inside⟩ := ih (userinfoChar v c)
    exact ⟨⟨scheme.trans step.1.1, query.trans step.1.2⟩, state.trans step.2.1,
      pointer.trans step.2.2.1, inside.trans step.2.2.2⟩

theorem keepsHost_authority (rest : Rest x.cp v.pointer t) (state : v.state = .authority)
    (place : Rest x.cp (v.pointer - v.buffer.length) (v.buffer ++ t))
    (plain : ∀ c ∈ v.buffer, c ≠ '@' ∧ endsAuthority (isSpecial v.url) (some c) = false)
    (text : hostText x.native x.cp x.base
      = some (isSpecial v.url, authorityHost (isSpecial v.url) (v.buffer ++ t)))
    (outside : v.insideBrackets = false) : KeepsHost x (authority v t.head?) := by
  unfold ParserInput.authority
  split
  · rename_i mark
    obtain ⟨t', rfl⟩ := List.head?_eq_some_iff.mp mark
    rw [authorityHost_at plain] at text
    dsimp only
    generalize (if v.atSignSeen then "%40".toList ++ v.buffer else v.buffer) = credentials
    obtain ⟨⟨scheme, -⟩, same, pointer, inside⟩ :=
      foldl_userinfoChar credentials { v with atSignSeen := true }
    refine keepsHost_char rest pointer (keepsHost_authority_start ?_ rfl (same.trans state) ?_) ?_
    · simp only [ParserVars.advance, ParserVars.clear, pointer]
      exact rest.next
    · simpa only [ParserVars.advance, ParserVars.clear, isSpecial, scheme] using text
    · exact fun _ => inside.trans outside
  · rename_i mark
    split
    · rename_i ended
      rw [authorityHost_plain plain ended] at text
      split
      · rename_i lost
        have empty : v.buffer = [] := by simpa using (Bool.and_eq_true_iff.mp lost).2
        rw [empty] at text
        exact keepsHost_null (readable_of_nil text)
      · have length := place.length_eq
        have back : v.pointer - (v.buffer.length + 1) + 1 = v.pointer - v.buffer.length := by omega
        refine ⟨fun _ => ⟨⟨v.buffer ++ t, ?_, .host rfl ?_⟩, ?_⟩, fun far => ?_⟩
        · simpa only [ParserVars.advance, back] using place
        · have kept : authorityText (isSpecial v.url) (v.buffer ++ t) = v.buffer := by
            rw [authorityText_append fun c member => (plain c member).2, authorityText_ended ended,
              List.append_nil]
          simp only [ParserVars.advance]
          rw [text, kept, outside, List.nil_append]
        · simp [ParserState.rank]
        · rw [List.length_append] at length
          simp only [back] at far
          omega
    · rename_i inside
      cases t with
      | nil => exact absurd rfl inside
      | cons c t =>
        have other : c ≠ '@' := by simpa using mark
        have inside : endsAuthority (isSpecial v.url) (some c) = false := by simpa using inside
        refine keepsHost_char rest rfl (.authority state ?_ ?_ ?_) fun _ => outside
        · have moved : v.pointer + 1 - ((v.buffer ++ [c]).length : Int)
              = v.pointer - v.buffer.length := by
            rw [List.length_append, List.length_singleton]
            omega
          simp only [ParserVars.advance, ParserVars.append, List.head?_cons, Option.toList_some]
          rw [moved, List.append_assoc]
          exact place
        · intro d member
          rcases List.mem_append.mp member with earlier | new
          · exact plain d earlier
          · rw [List.mem_singleton.mp new]
            exact ⟨other, inside⟩
        · simpa using text

/-- What follows the call of `parseHost` on the host text. -/
theorem keepsHost_withHost (text : hostText x.native x.cp x.base = some (isSpecial v.url, v.buffer))
    (next : ParserVars → Host → Pass) (goes : ∀ h, Readable x → KeepsHost x (next v h)) :
    KeepsHost x (x.withHost v next) := by
  unfold ParserInput.withHost
  cases result : parseHost x.native v.buffer (isSpecial v.url) with
  | error e =>
    intro e'
    constructor
    · rintro ⟨⟩
      exact ⟨_, v.buffer, text, result⟩
    · rintro ⟨special, name', text', failed⟩
      rw [text] at text'
      cases text'
      rw [result] at failed
      cases failed
      rfl
  | ok host =>
    have readable : Readable x := by
      intro special name' text'
      rw [text] at text'
      cases text'
      exact ⟨_, result⟩
    cases host with
    | none => exact keepsHost_null readable
    | some h => exact goes h readable

theorem keepsHost_host (override : x.stateOverride = none) (rest : Rest x.cp v.pointer t)
    (state : v.state = .host)
    (text : hostText x.native x.cp x.base
      = some (isSpecial v.url,
          v.buffer ++ beforePort v.insideBrackets (authorityText (isSpecial v.url) t))) :
    KeepsHost x (x.host v t.head?) := by
  unfold ParserInput.host
  split
  · rename_i port
    obtain ⟨t', rfl⟩ := List.head?_eq_some_iff.mp port.1
    have colon : endsAuthority (isSpecial v.url) (some ':') = false := by
      cases isSpecial v.url <;> rfl
    rw [authorityText_cons colon, beforePort, if_pos ⟨rfl, port.2⟩, List.append_nil] at text
    split
    · rename_i empty
      rw [empty] at text
      exact keepsHost_null (readable_of_nil text)
    · rw [override, if_neg (by simp)]
      refine keepsHost_withHost text _ fun h readable => ?_
      exact keepsHost_over rest rfl (by simp [ParserState.rank]) readable
  · rename_i port
    split
    · rename_i ended
      rw [authorityText_ended ended, beforePort, List.append_nil] at text
      rw [override]
      dsimp only
      split
      · rename_i lost
        have empty : v.buffer = [] := by simpa using (Bool.and_eq_true_iff.mp lost).2
        rw [empty] at text
        exact keepsHost_null (readable_of_nil text)
      · simp only [Option.isSome_none, Bool.false_and, Bool.false_eq_true, if_false]
        refine keepsHost_withHost (v := v.back) text _ fun h readable => ?_
        exact keepsHost_leave rest rfl (by simp [ParserState.rank]) readable
    · rename_i inside
      cases t with
      | nil => exact absurd rfl inside
      | cons c t =>
        have inside : endsAuthority (isSpecial v.url) (some c) = false := by simpa using inside
        rw [authorityText_cons inside, beforePort, if_neg (by simpa using port)] at text
        refine keepsHost_char rest rfl (.host state ?_) (by simp [state, ParserState.rank])
        simpa using text

/-- The name of a file host and what ends it. -/
theorem keepsHost_fileHost (override : x.stateOverride = none) (rest : Rest x.cp v.pointer t)
    (state : v.state = .fileHost) (special : isSpecial v.url = true)
    (text : hostText x.native x.cp x.base = fileHostName (v.buffer ++ authorityText true t))
    (outside : v.insideBrackets = false) : KeepsHost x (x.fileHost v t.head?) := by
  unfold ParserInput.fileHost
  split
  · rename_i ended
    rw [authorityText_ended ended, List.append_nil] at text
    rw [override]
    dsimp only
    split
    · rename_i drive
      rw [fileHostName, if_pos (.inr (by simpa using drive))] at text
      exact keepsHost_leave rest rfl (by simp [ParserState.rank]) (readable_of_none text)
    · rename_i notDrive
      split
      · rename_i empty
        rw [fileHostName, if_pos (.inl empty)] at text
        simp only [Option.isSome_none, Bool.false_eq_true, if_false]
        exact keepsHost_leave rest rfl (by simp [ParserState.rank]) (readable_of_none text)
      · rename_i filled
        have filled : v.buffer ≠ [] := filled
        have drive : isWindowsDriveLetter v.buffer = false := by simpa using notDrive
        rw [fileHostName, if_neg (by simp [filled, drive]), ← special] at text
        simp only [Option.isSome_none, Bool.false_eq_true, if_false]
        refine keepsHost_withHost (v := v.back) text _ fun h readable => ?_
        generalize (if h = .text "localhost".toList then Host.text [] else h) = host
        exact keepsHost_leave rest rfl (by simp [setHost, ParserState.rank]) readable
  · rename_i inside
    cases t with
    | nil => exact absurd rfl inside
    | cons c t =>
      have inside : endsAuthority true (some c) = false := by simpa using inside
      rw [authorityText_cons inside] at text
      refine keepsHost_char rest rfl (.fileHost state special ?_) fun _ => outside
      simpa using text

theorem keepsHost_fileSlash (rest : Rest x.cp v.pointer t) (buffer : v.buffer = [])
    (special : isSpecial v.url = true)
    (text : hostText x.native x.cp x.base = fileSlashHost t)
    (outside : v.insideBrackets = false) : KeepsHost x (x.fileSlash v t.head?) := by
  unfold ParserInput.fileSlash
  split
  · rename_i slash
    cases t with
    | nil => simp at slash
    | cons c t =>
      have slash : isAnySlash c = true := by simpa [isAnySlash] using slash
      rw [fileSlashHost, if_pos slash] at text
      refine keepsHost_char rest rfl (.fileHost rfl special ?_) fun _ => outside
      simpa [buffer] using text
  · rename_i other
    have none : hostText x.native x.cp x.base = none := by
      rw [text]
      cases t with
      | nil => rfl
      | cons c t =>
        have other : ¬isAnySlash c = true := by simpa [isAnySlash] using other
        rw [fileSlashHost, if_neg other]
    have readable := readable_of_none none
    split
    all_goals
      exact keepsHost_leave rest rfl (by simp [ParserState.rank]) readable

theorem keepsHost_file (rest : Rest x.cp v.pointer t)
    (text : hostText x.native x.cp x.base = fileHostOf t) (outside : v.insideBrackets = false) :
    KeepsHost x (x.file v t.head?) := by
  unfold ParserInput.file
  dsimp only
  split
  · rename_i slash
    cases t with
    | nil => simp at slash
    | cons c t =>
      have slash : isAnySlash c = true := by simpa [isAnySlash] using slash
      rw [fileHostOf, if_pos slash] at text
      exact keepsHost_char rest rfl (.fileSlash rfl isSpecialScheme_file text) fun _ => outside
  · rename_i other
    have none : hostText x.native x.cp x.base = none := by
      rw [text]
      cases t with
      | nil => rfl
      | cons c t =>
        have other : ¬isAnySlash c = true := by simpa [isAnySlash] using other
        rw [fileHostOf, if_neg other]
    have readable := readable_of_none none
    split
    · exact keepsHost_afterInherited rest _ readable _
    · exact keepsHost_leave rest rfl (by simp [ParserState.rank]) readable

theorem keepsHost_pass (override : x.stateOverride = none) (placed : Placed x.cp v)
    (inv : HostInv x v) : KeepsHost x (x.pass v) := by
  obtain ⟨t, rest, stage⟩ := inv.stage
  have empty := placed.buffer
  unfold BufferOk at empty
  cases stage with
  | settled state readable => exact keepsHost_settled override placed state readable
  | schemeStart state start =>
    rw [state] at empty
    have outside := inv.outside (by simp [state, ParserState.rank])
    simp only [ParserInput.pass, state, rest.charAt_eq]
    exact keepsHost_schemeStart override rest start empty outside
  | scheme state read input first chars buffer =>
    have outside := inv.outside (by simp [state, ParserState.rank])
    simp only [ParserInput.pass, state, rest.charAt_eq]
    exact keepsHost_scheme override rest state input first chars buffer outside
  | noScheme state start unsplit =>
    have outside := inv.outside (by simp [state, ParserState.rank])
    simp only [ParserInput.pass, state, rest.charAt_eq]
    exact keepsHost_noScheme rest start unsplit outside
  | specialRelative state base based special same text =>
    have outside := inv.outside (by simp [state, ParserState.rank])
    simp only [ParserInput.pass, state, rest.charAt_eq]
    exact keepsHost_specialRelative rest based special same text outside
  | pathOrAuthority state special text =>
    rw [state] at empty
    have outside := inv.outside (by simp [state, ParserState.rank])
    simp only [ParserInput.pass, state, rest.charAt_eq]
    exact keepsHost_pathOrAuthority rest empty special text outside
  | relative state base based text =>
    have outside := inv.outside (by simp [state, ParserState.rank])
    simp only [ParserInput.pass, state, rest.charAt_eq]
    exact keepsHost_relative rest based text outside
  | relativeSlash state based text =>
    rw [state] at empty
    have outside := inv.outside (by simp [state, ParserState.rank])
    simp only [ParserInput.pass, state, rest.charAt_eq]
    exact keepsHost_relativeSlash rest based empty text outside
  | slashes state special text =>
    rcases state with state | state
    · have outside := inv.outside (by simp [state, ParserState.rank])
      simp only [ParserInput.pass, state, rest.charAt_eq]
      exact keepsHost_slashes rest special text outside
    · rw [state] at empty
      have outside := inv.outside (by simp [state, ParserState.rank])
      simp only [ParserInput.pass, state, rest.charAt_eq]
      exact keepsHost_ignoreSlashes rest empty state special text outside
  | authority state place plain text =>
    have outside := inv.outside (by simp [state, ParserState.rank])
    simp only [ParserInput.pass, state, rest.charAt_eq]
    exact keepsHost_authority rest state place plain text outside
  | host state text =>
    simp only [ParserInput.pass, state, rest.charAt_eq]
    exact keepsHost_host override rest state text
  | file state text =>
    have outside := inv.outside (by simp [state, ParserState.rank])
    simp only [ParserInput.pass, state, rest.charAt_eq]
    exact keepsHost_file rest text outside
  | fileSlash state special text =>
    rw [state] at empty
    have outside := inv.outside (by simp [state, ParserState.rank])
    simp only [ParserInput.pass, state, rest.charAt_eq]
    exact keepsHost_fileSlash rest empty special text outside
  | fileHost state special text =>
    have outside := inv.outside (by simp [state, ParserState.rank])
    simp only [ParserInput.pass, state, rest.charAt_eq]
    exact keepsHost_fileHost override rest state special text outside

end Steps

/-- The host text of the input is refused with an exception. -/
def HostUnreadable (native : Native) (input : Text) (base : Option URLRecord) : Prop :=
  ∃ special name, hostText native (preprocess input) base = some (special, name) ∧
    UnreadableHost special name

/-- The parser throws exactly when its host text is unreadable. -/
theorem parseURL_threw_iff (native : Native) (input : Text) (base : Option URLRecord) :
    (∃ url e, parseURL native input base = some (url, .threw e)) ↔
      HostUnreadable native input base := by
  have start : HostInv ⟨native, preprocess input, base, none⟩ (initialVars newURLRecord none) :=
    ⟨⟨preprocess input, rest_zero _, .schemeStart rfl rfl⟩, fun _ => rfl⟩
  have post : ∀ {url ended}, parseURL native input base = some (url, ended) →
      HostPost ⟨native, preprocess input, base, none⟩ url ended := by
    intro url ended result
    exact run_rule (fun v => keepsHost_pass rfl) _ (placed_initialVars _) start result
  constructor
  · rintro ⟨url, e, threw⟩
    obtain ⟨special, name, text, failed⟩ := (post threw e).mp rfl
    exact ⟨special, name, text, parseHost_error_iff.mp ⟨e, failed⟩⟩
  · rintro ⟨special, name, text, unreadable⟩
    obtain ⟨e, failed⟩ := (@parseHost_error_iff native _ _).mpr unreadable
    obtain ⟨⟨url, ended⟩, result⟩ :=
      Option.isSome_iff_exists.mp (basicURLParse_isSome native input base newURLRecord none)
    have threw : ended = .threw e := (post result e).mpr ⟨special, name, text, failed⟩
    rw [threw] at result
    exact ⟨url, e, result⟩

end QjsLws.Url
