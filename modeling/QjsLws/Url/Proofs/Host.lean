import QjsLws.Url.Host
import QjsLws.Url.Proofs.PercentEncoding

/-!
# Hosts read back

The hosts that `parseHost` returns, and what it returns for their serialization.
-/

namespace QjsLws.Url

open QjsLws.Misc

/-- The number of four address bytes. -/
def ipv4Number (b0 b1 b2 b3 : UInt8) : Nat :=
  ((b0.toNat * 256 + b1.toNat) * 256 + b2.toNat) * 256 + b3.toNat

/-- Four address bytes in dotted-decimal notation. -/
def dotted (b0 b1 b2 b3 : UInt8) : Text :=
  decimal b0.toNat ++ '.' :: decimal b1.toNat ++ '.' :: decimal b2.toNat ++ '.' :: decimal b3.toNat

/-- What the code relies on: `toLowerCase` is idempotent, lowers ASCII letters and removes no
text; addresses are written as they are read, in the usual characters; and an IPv6 address needs
a colon. -/
structure Native.Lawful (native : Native) : Prop where
  toLowerCase_idem : ∀ t, native.toLowerCase (native.toLowerCase t) = native.toLowerCase t
  toLowerCase_ascii : ∀ t : Text, (∀ c ∈ t, c.toNat < 0x80) → native.toLowerCase t = asciiLower t
  toLowerCase_ne_nil : ∀ t, t ≠ [] → native.toLowerCase t ≠ []
  parse_write : ∀ bytes : List UInt8, bytes.length = 4 ∨ bytes.length = 16 →
    native.parseNumericAddress (native.writeNumericAddress bytes) = some bytes
  write_ipv4 : ∀ b0 b1 b2 b3, native.writeNumericAddress [b0, b1, b2, b3] = dotted b0 b1 b2 b3
  write_ipv6 : ∀ bytes : List UInt8, bytes.length = 16 →
    ∀ c ∈ native.writeNumericAddress bytes, c.isHexDigit = true ∨ c = ':' ∨ c = '.'
  parse_ipv6 : ∀ t bytes, native.parseNumericAddress t = some bytes → bytes.length = 16 → ':' ∈ t

/-- The hosts of special and of other URLs. -/
inductive HostOk (native : Native) : Bool → Host → Prop
  | ipv6 (special : Bool) (bytes : List UInt8) (length : bytes.length = 16) :
    HostOk native special (.ipv6 (piecesOf bytes))
  | ipv4 (b0 b1 b2 b3 : UInt8) : HostOk native true (.ipv4 (ipv4Number b0 b1 b2 b3))
  | domain (t : Text) (nonempty : t ≠ []) (lower : native.toLowerCase t = t)
    (allowed : ∀ c ∈ t, forbiddenInDomain c = false) (notNumber : endsInANumber t = false) :
    HostOk native true (.text t)
  | plain (t : Text) (allowed : ∀ c ∈ t, c ∉ forbiddenHostCodePoints)
    (encoded : ∀ c ∈ t, copied c0Extra c = true) : HostOk native false (.text t)

/-- An IPv6 address that is written with an IPv4 part. -/
def WrittenDotted (native : Native) (h : Host) : Prop :=
  ∃ address, h = .ipv6 address ∧ '.' ∈ serializeIPv6 native address

section Bytes

theorem serializeIPv4_ipv4Number (native : Native) (b0 b1 b2 b3 : UInt8) :
    serializeIPv4 native (ipv4Number b0 b1 b2 b3)
      = native.writeNumericAddress [b0, b1, b2, b3] := by
  have h0 := b0.toNat_lt
  have h1 := b1.toNat_lt
  have h2 := b2.toNat_lt
  have h3 := b3.toNat_lt
  have e0 : ipv4Number b0 b1 b2 b3 / 256 / 256 / 256 % 256 = b0.toNat := by
    unfold ipv4Number; omega
  have e1 : ipv4Number b0 b1 b2 b3 / 256 / 256 % 256 = b1.toNat := by unfold ipv4Number; omega
  have e2 : ipv4Number b0 b1 b2 b3 / 256 % 256 = b2.toNat := by unfold ipv4Number; omega
  have e3 : ipv4Number b0 b1 b2 b3 % 256 = b3.toNat := by unfold ipv4Number; omega
  simp only [serializeIPv4, sockAddr46Host, e0, e1, e2, e3, UInt8.ofNat_toNat]

/-- The pieces give the bytes back. -/
theorem bytes_of_piecesOf {bytes : List UInt8} (even : bytes.length % 2 = 0) :
    (piecesOf bytes).flatMap
      (fun piece => [UInt8.ofNat (piece / 256), UInt8.ofNat (piece % 256)]) = bytes := by
  induction bytes using piecesOf.induct with
  | case1 b b' rest ih =>
    have rest' := ih (by simp only [List.length_cons] at even; omega)
    have high : (b.toNat * 256 + b'.toNat) / 256 = b.toNat := by
      have := b'.toNat_lt
      omega
    have low : (b.toNat * 256 + b'.toNat) % 256 = b'.toNat := by
      have := b'.toNat_lt
      omega
    rw [piecesOf, List.flatMap_cons, rest', high, low, UInt8.ofNat_toNat, UInt8.ofNat_toNat]
    rfl
  | case2 bytes short =>
    match bytes, short with
    | [], _ => rfl
    | [b], _ => simp at even
    | b :: b' :: rest, short => exact absurd rfl (short b b' rest)

theorem serializeIPv6_piecesOf (native : Native) {bytes : List UInt8} (length : bytes.length = 16) :
    serializeIPv6 native (piecesOf bytes) = native.writeNumericAddress bytes := by
  rw [serializeIPv6, sockAddr46Host, bytes_of_piecesOf (by rw [length])]

end Bytes

section Grammar

variable {native : Native} {input : Text} {special : Bool} {h : Host}

theorem parseIPv6_eq_some {address : List Nat}
    (parsed : parseIPv6 native input = .ok (some address)) :
    ∃ bytes, bytes.length = 16 ∧ sockAddr46Address native input = .ok (some bytes) ∧
      address = piecesOf bytes := by
  unfold parseIPv6 at parsed
  cases found : sockAddr46Address native input with
  | error e =>
    rw [found] at parsed
    cases parsed
  | ok result =>
    rw [found] at parsed
    cases result with
    | none => cases parsed
    | some bytes =>
      simp only [Except.map] at parsed
      split at parsed
      · rename_i length
        cases parsed
        exact ⟨bytes, length, rfl, rfl⟩
      · cases parsed

theorem parseIPv4_eq_some {address : Nat} (parsed : parseIPv4 native input = .ok (some address)) :
    ∃ b0 b1 b2 b3, sockAddr46Address native input = .ok (some [b0, b1, b2, b3]) ∧
      address = ipv4Number b0 b1 b2 b3 := by
  unfold parseIPv4 at parsed
  cases found : sockAddr46Address native input with
  | error e =>
    rw [found] at parsed
    cases parsed
  | ok result =>
    rw [found] at parsed
    simp only [Except.map] at parsed
    split at parsed
    · cases parsed
      exact ⟨_, _, _, _, rfl, rfl⟩
    · cases parsed

/-- A text in brackets. -/
theorem eq_bracketed (first : input.head? = some '[') (last : input.getLast? = some ']') :
    input = '[' :: input.tail.dropLast ++ [']'] := by
  obtain ⟨rest, rfl⟩ : ∃ rest, input = '[' :: rest := by
    cases input with
    | nil => cases first
    | cons c rest =>
      cases first
      exact ⟨rest, rfl⟩
  have filled : rest ≠ [] := by
    rintro rfl
    simp at last
  have ends : rest.getLast filled = ']' := by
    rw [List.getLast?_cons, List.getLast?_eq_getLast_of_ne_nil filled] at last
    simpa using last
  rw [List.tail_cons, List.cons_append, ← ends, List.dropLast_append_getLast]

/-- What `parseHost` returns, and where it comes from: an address in brackets, an opaque name, or a
decoded domain, which is an IPv4 address if it ends in a number. -/
theorem parseHost_cases (parsed : parseHost native input special = .ok (some h)) :
    (∃ x bytes, input = '[' :: x ++ [']'] ∧ bytes.length = 16 ∧
      sockAddr46Address native x = .ok (some bytes) ∧ h = .ipv6 (piecesOf bytes)) ∨
    (special = false ∧ (∀ c ∈ input, c ∉ forbiddenHostCodePoints) ∧
      h = .text (utf8PercentEncode input c0Extra)) ∨
    ∃ domain, special = true ∧ input ≠ [] ∧ percentDecodeString input = .ok domain ∧
      (∀ c ∈ native.toLowerCase domain, forbiddenInDomain c = false) ∧
      ((endsInANumber (native.toLowerCase domain) = true ∧ ∃ b0 b1 b2 b3,
          sockAddr46Address native (native.toLowerCase domain) = .ok (some [b0, b1, b2, b3]) ∧
          h = .ipv4 (ipv4Number b0 b1 b2 b3)) ∨
        (endsInANumber (native.toLowerCase domain) = false ∧
          h = .text (native.toLowerCase domain))) := by
  unfold parseHost at parsed
  split at parsed
  · rename_i first
    split at parsed
    · cases parsed
    · rename_i last
      cases found : parseIPv6 native input.tail.dropLast with
      | error e => simp [found, Except.map] at parsed
      | ok result =>
        cases result with
        | none => simp [found, Except.map] at parsed
        | some address =>
          obtain ⟨bytes, length, read, rfl⟩ := parseIPv6_eq_some found
          simp only [found, Except.map, Option.map_some, Except.ok.injEq, Option.some.injEq] at parsed
          exact .inl ⟨_, bytes, eq_bracketed first (not_not.mp last), length, read, parsed.symm⟩
  · cases special with
    | false =>
      simp only [Bool.not_false, if_true, parseOpaqueHost] at parsed
      split at parsed
      · cases parsed
      · rename_i allowed
        cases parsed
        exact .inr (.inl ⟨rfl, by simpa [containsForbiddenHostCodePoint] using allowed, rfl⟩)
    | true =>
      simp only [Bool.not_true, Bool.false_eq_true, if_false] at parsed
      split at parsed
      · cases parsed
      · rename_i nonempty
        split at parsed
        · cases parsed
        · rename_i domain decoded
          split at parsed
          · cases parsed
          · rename_i allowed
            refine .inr (.inr ⟨domain, rfl, nonempty, decoded, by simpa using allowed, ?_⟩)
            split at parsed
            · rename_i number
              cases found : parseIPv4 native (native.toLowerCase domain) with
              | error e => simp [found, Except.map] at parsed
              | ok result =>
                cases result with
                | none => simp [found, Except.map] at parsed
                | some address =>
                  obtain ⟨b0, b1, b2, b3, read, rfl⟩ := parseIPv4_eq_some found
                  simp only [found, Except.map, Option.map_some, Except.ok.injEq,
                    Option.some.injEq] at parsed
                  exact .inl ⟨number, b0, b1, b2, b3, read, parsed.symm⟩
            · rename_i notNumber
              cases parsed
              exact .inr ⟨by simpa using notNumber, rfl⟩

/-- `parseHost` returns only hosts of the grammar. -/
theorem hostOk_of_parseHost (lawful : native.Lawful)
    (parsed : parseHost native input special = .ok (some h)) : HostOk native special h := by
  rcases parseHost_cases parsed with ⟨x, bytes, -, length, -, rfl⟩ | ⟨rfl, allowed, rfl⟩ |
    ⟨domain, rfl, nonempty, decoded, allowed, ⟨-, b0, b1, b2, b3, -, rfl⟩ | ⟨notNumber, rfl⟩⟩
  · exact .ipv6 special bytes length
  · have escapes : ∀ x ∈ escapeChars, x ∉ forbiddenHostCodePoints :=
      forall_mem_of_all (by decide)
    apply HostOk.plain
    · exact forall_mem_utf8PercentEncode escapes fun c member _ => allowed c member
    · exact copied_of_mem_encode keepsEscapes_c0Extra
  · exact .ipv4 b0 b1 b2 b3
  · have filled : domain ≠ [] := by
      rintro rfl
      exact percentDecodeString_ne_nil nonempty decoded
    exact .domain _ (lawful.toLowerCase_ne_nil domain filled)
      (lawful.toLowerCase_idem domain) allowed notNumber

/-- Only an empty name is serialized as nothing, and it is not read from a filled buffer. -/
theorem parseHost_ne_empty (lawful : native.Lawful) (nonempty : input ≠ [])
    (parsed : parseHost native input special = .ok (some h)) : h ≠ .text [] := by
  rintro rfl
  rcases parseHost_cases parsed with ⟨x, bytes, -, -, -, eq⟩ | ⟨rfl, -, eq⟩ | ⟨domain, rfl, -⟩
  · cases eq
  · cases input with
    | nil => exact nonempty rfl
    | cons c rest =>
      simp only [Host.text.injEq, utf8PercentEncode, List.flatMap_cons, List.nil_eq,
        List.append_eq_nil_iff] at eq
      exact encodeChar_ne_nil c eq.1
  · cases hostOk_of_parseHost lawful parsed with
    | domain _ filled => exact filled rfl

end Grammar

section Characters

variable {native : Native} {special : Bool} {h : Host} {c : Char}

/-- The characters of dotted-decimal notation. -/
def dottedChars : List Char := "0123456789.".toList

theorem isDigit_mem_dottedChars (digit : c.isDigit = true) : c ∈ dottedChars := by
  have listed := mem_of_isHexDigit (isHexDigit_of_isDigit digit)
  have check : ∀ c ∈ "0123456789abcdefABCDEF".toList, c.isDigit = true → c ∈ dottedChars :=
    forall_mem_of_all (by decide)
  exact check c listed digit

theorem mem_dotted {b0 b1 b2 b3 : UInt8} (member : c ∈ dotted b0 b1 b2 b3) : c ∈ dottedChars := by
  simp only [dotted, List.mem_append, List.mem_cons] at member
  rcases member with ((digit | rfl | digit) | rfl | digit) | rfl | digit
  all_goals first
    | exact isDigit_mem_dottedChars (isDigit_of_mem_decimal digit)
    | decide

/-- The characters that numeric IPv6 addresses are written with. -/
def ipv6Chars : List Char := "0123456789abcdefABCDEF:.".toList

theorem mem_serializeIPv6 (lawful : native.Lawful) {bytes : List UInt8}
    (length : bytes.length = 16) (member : c ∈ serializeIPv6 native (piecesOf bytes)) :
    c ∈ ipv6Chars := by
  rw [serializeIPv6_piecesOf native length] at member
  rcases lawful.write_ipv6 bytes length c member with digit | rfl | rfl
  · exact List.mem_append_left [':', '.'] (mem_of_isHexDigit digit)
  · decide
  · decide

theorem not_forbidden_of_domain (allowed : forbiddenInDomain c = false) :
    c ∉ forbiddenHostCodePoints ∧ c ≠ '%' ∧ 0x1f < c.toNat := by
  simp only [forbiddenInDomain, forbiddenDomainExtra, Bool.or_eq_false_iff, List.contains_eq_mem,
    decide_eq_false_iff_not, List.mem_append, List.mem_singleton, not_or, Nat.not_le] at allowed
  exact ⟨allowed.1.1.1, allowed.1.1.2, allowed.1.2⟩

theorem control_of_copied {extraSet : List Nat} (keep : copied extraSet c = true) :
    0x1f < c.toNat ∧ c.toNat < 0x7f := by
  simp only [copied, isC0ControlOrNonASCII, Bool.and_eq_true, Bool.not_eq_true',
    Bool.or_eq_false_iff, decide_eq_false_iff_not, decide_eq_true_eq] at keep
  omega

/-- Outside brackets a serialized host has no forbidden character. -/
theorem not_forbidden_of_mem (lawful : native.Lawful) (ok : HostOk native special h)
    (name : ∀ address, h ≠ .ipv6 address) (member : c ∈ serializeHost native h) :
    c ∉ forbiddenHostCodePoints ∧ 0x1f < c.toNat := by
  cases ok with
  | ipv6 _ bytes length => exact absurd rfl (name _)
  | ipv4 b0 b1 b2 b3 =>
    rw [serializeHost, serializeIPv4_ipv4Number, lawful.write_ipv4] at member
    have check : ∀ c ∈ dottedChars, c ∉ forbiddenHostCodePoints ∧ 0x1f < c.toNat :=
      forall_mem_of_all (by decide)
    exact check c (mem_dotted member)
  | domain t _ _ allowed =>
    obtain ⟨fine, -, visible⟩ := not_forbidden_of_domain (allowed c member)
    exact ⟨fine, visible⟩
  | plain t allowed encoded => exact ⟨allowed c member, (control_of_copied (encoded c member)).1⟩

/-- A serialized host has no character that ends it or starts another part. -/
theorem authority_char_of_mem (lawful : native.Lawful) (ok : HostOk native special h)
    (member : c ∈ serializeHost native h) :
    c ≠ '/' ∧ c ≠ '?' ∧ c ≠ '#' ∧ c ≠ '\\' ∧ c ≠ '@' ∧ 0x20 < c.toNat := by
  by_cases name : ∃ address, h = .ipv6 address
  · obtain ⟨address, rfl⟩ := name
    cases ok with
    | ipv6 _ bytes length =>
      have listed : c ∈ '[' :: ']' :: ipv6Chars := by
        simp only [serializeHost, List.mem_append, List.mem_cons, List.not_mem_nil,
          or_false] at member
        rcases member with (rfl | inside) | rfl
        · decide
        · exact List.mem_cons_of_mem _ (List.mem_cons_of_mem _
            (mem_serializeIPv6 lawful length inside))
        · decide
      have check : ∀ c ∈ '[' :: ']' :: ipv6Chars,
          c ≠ '/' ∧ c ≠ '?' ∧ c ≠ '#' ∧ c ≠ '\\' ∧ c ≠ '@' ∧ 0x20 < c.toNat :=
        forall_mem_of_all (by decide)
      exact check c listed
  · obtain ⟨allowed, control⟩ := not_forbidden_of_mem lawful ok (fun a eq => name ⟨a, eq⟩) member
    have visible : 0x20 < c.toNat := by
      have blank : c.toNat ≠ 0x20 := by
        intro code
        have space : c = ' ' := Char.toNat_inj.mp code
        exact allowed (space ▸ by decide)
      omega
    refine ⟨?_, ?_, ?_, ?_, ?_, visible⟩ <;> rintro rfl <;> exact allowed (by decide)

theorem serializeHost_eq_nil (lawful : native.Lawful) (ok : HostOk native special h) :
    serializeHost native h = [] ↔ h = .text [] := by
  cases ok with
  | ipv6 _ bytes length => simp [serializeHost]
  | ipv4 b0 b1 b2 b3 =>
    simp [serializeHost, serializeIPv4_ipv4Number, lawful.write_ipv4, dotted]
  | domain t _ _ _ _ => simp [serializeHost]
  | plain t _ _ => simp [serializeHost]

end Characters

section ReadBack

variable {native : Native} {special : Bool} {h : Host}

theorem cString_eq_self {t : Text} (visible : ∀ c ∈ t, c ≠ Char.ofNat 0) : cString t = t := by
  unfold cString
  rw [List.takeWhile_eq_self_iff]
  simpa using visible

/-- Text without brackets is cut at its first colon if it has a dot. -/
theorem sockAddr46Address_of_plain {t : Text} (visible : ∀ c ∈ t, c ≠ Char.ofNat 0)
    (bracket : '[' ∉ t) :
    sockAddr46Address native t
      = .ok (native.parseNumericAddress (if t.contains '.' then t.takeWhile (· ≠ ':') else t)) := by
  unfold sockAddr46Address
  rw [cString_eq_self visible]
  split
  · simp at bracket
  · rfl

theorem parseIPv4_dotted (lawful : native.Lawful) (b0 b1 b2 b3 : UInt8) :
    parseIPv4 native (dotted b0 b1 b2 b3) = .ok (some (ipv4Number b0 b1 b2 b3)) := by
  have check : ∀ c ∈ dottedChars, c ≠ Char.ofNat 0 ∧ c ≠ '[' ∧ c ≠ ':' :=
    forall_mem_of_all (by decide)
  have chars : ∀ c ∈ dotted b0 b1 b2 b3, c ≠ Char.ofNat 0 ∧ c ≠ '[' ∧ c ≠ ':' :=
    fun c member => check c (mem_dotted member)
  have whole : (dotted b0 b1 b2 b3).takeWhile (· ≠ ':') = dotted b0 b1 b2 b3 := by
    rw [List.takeWhile_eq_self_iff]
    simpa using fun c member => (chars c member).2.2
  have bytes := lawful.parse_write [b0, b1, b2, b3] (.inl rfl)
  rw [lawful.write_ipv4] at bytes
  rw [parseIPv4, sockAddr46Address_of_plain (fun c member => (chars c member).1)
    (fun member => (chars _ member).2.1 rfl), whole, ite_self, bytes]
  rfl

theorem endsInANumber_dotted (b0 b1 b2 b3 : UInt8) : endsInANumber (dotted b0 b1 b2 b3) = true := by
  have digits : ∀ c ∈ decimal b3.toNat, c.isDigit = true := fun c => isDigit_of_mem_decimal
  have none : '.' ∉ decimal b3.toNat := fun member => absurd (digits _ member) (by decide)
  have filled : decimal b3.toNat ≠ [] := Nat.toDigits_ne_nil
  obtain ⟨part, parts, eq⟩ := split_append
    (decimal b0.toNat ++ '.' :: decimal b1.toNat ++ '.' :: decimal b2.toNat) none
  have parts : split '.' (dotted b0 b1 b2 b3) = part :: parts ++ [decimal b3.toNat] := by
    rw [← eq]
    simp [dotted]
  unfold endsInANumber
  simp only [parts, List.getLast?_append, List.getLast?_singleton, Option.some_or,
    Option.some.injEq, filled, and_false, if_false]
  simp only [Bool.or_eq_true, Bool.and_eq_true, List.all_eq_true]
  exact .inl ⟨by simpa using filled, digits⟩

/-- What the constructor finds in a written IPv6 address. -/
theorem sockAddr46Address_ipv6 (lawful : native.Lawful) {bytes : List UInt8}
    (length : bytes.length = 16) :
    let t := native.writeNumericAddress bytes
    sockAddr46Address native t
      = .ok (native.parseNumericAddress (if t.contains '.' then t.takeWhile (· ≠ ':') else t)) := by
  intro t
  have check : ∀ c ∈ ipv6Chars, c ≠ Char.ofNat 0 ∧ c ≠ '[' := forall_mem_of_all (by decide)
  have chars : ∀ c ∈ t, c ≠ Char.ofNat 0 ∧ c ≠ '[' := by
    intro c member
    apply check
    apply mem_serializeIPv6 lawful length
    rwa [serializeIPv6_piecesOf native length]
  exact sockAddr46Address_of_plain (fun c member => (chars c member).1)
    (fun member => (chars _ member).2 rfl)

theorem parseIPv6_undotted (lawful : native.Lawful) {bytes : List UInt8}
    (length : bytes.length = 16) (undotted : '.' ∉ native.writeNumericAddress bytes) :
    parseIPv6 native (native.writeNumericAddress bytes) = .ok (some (piecesOf bytes)) := by
  rw [parseIPv6, sockAddr46Address_ipv6 lawful length, if_neg (by simpa using undotted),
    lawful.parse_write bytes (.inr length)]
  simp [Except.map, length]

/-- A dot makes the constructor cut the text before its first colon. -/
theorem parseIPv6_dotted (lawful : native.Lawful) {bytes : List UInt8}
    (length : bytes.length = 16) (dotted : '.' ∈ native.writeNumericAddress bytes) :
    parseIPv6 native (native.writeNumericAddress bytes) = .ok none := by
  rw [parseIPv6, sockAddr46Address_ipv6 lawful length, if_pos (by simpa using dotted)]
  simp only [Except.map]
  split
  · rename_i found result
    rw [if_neg]
    intro size
    have colon := lawful.parse_ipv6 _ _ result size
    simpa using List.mem_takeWhile_imp colon
  · rfl

/-- A bracketed address goes to `parseIPv6`. -/
theorem parseHost_bracketed (t : Text) :
    parseHost native ('[' :: t ++ [']']) special = (parseIPv6 native t).map (Option.map .ipv6) := by
  have inner : ('[' :: t ++ [']']).tail.dropLast = t := by simp
  have last : ('[' :: t ++ [']']).getLast? = some ']' := List.getLast?_concat
  unfold parseHost
  rw [if_pos (by simp), if_neg (not_not_intro last), inner]

/-- A name or an IPv4 address has no bracket, so it is read as a domain. -/
theorem parseHost_domain {t : Text} (nonempty : t ≠ []) (lower : native.toLowerCase t = t)
    (allowed : ∀ c ∈ t, forbiddenInDomain c = false) :
    parseHost native t true =
      if endsInANumber t then (parseIPv4 native t).map (Option.map .ipv4)
      else .ok (some (.text t)) := by
  have bracket : t.head? ≠ some '[' := by
    intro first
    have := (not_forbidden_of_domain (allowed '[' (List.mem_of_head? first))).1
    exact this (by decide)
  have percent : '%' ∉ t := fun member => (not_forbidden_of_domain (allowed _ member)).2.1 rfl
  unfold parseHost
  rw [if_neg bracket]
  simp only [Bool.not_true, Bool.false_eq_true, if_false, nonempty,
    percentDecodeString_of_not_mem percent, lower]
  rw [if_neg (by simpa using allowed)]

/-- A serialized host is read back, except an IPv6 address that is written with dots. -/
theorem parseHost_serializeHost (lawful : native.Lawful) (ok : HostOk native special h)
    (undotted : ¬WrittenDotted native h) :
    parseHost native (serializeHost native h) special = .ok (some h) := by
  cases ok with
  | ipv6 _ bytes length =>
    have plain : '.' ∉ native.writeNumericAddress bytes := by
      rw [← serializeIPv6_piecesOf native length]
      exact fun member => undotted ⟨_, rfl, member⟩
    rw [serializeHost, parseHost_bracketed, serializeIPv6_piecesOf native length,
      parseIPv6_undotted lawful length plain]
    rfl
  | ipv4 b0 b1 b2 b3 =>
    have check : ∀ c ∈ dottedChars,
        c.toNat < 0x80 ∧ c.toLower = c ∧ forbiddenInDomain c = false :=
      forall_mem_of_all (by decide)
    have chars : ∀ c ∈ dotted b0 b1 b2 b3,
        c.toNat < 0x80 ∧ c.toLower = c ∧ forbiddenInDomain c = false :=
      fun c member => check c (mem_dotted member)
    have lower : native.toLowerCase (dotted b0 b1 b2 b3) = dotted b0 b1 b2 b3 := by
      rw [lawful.toLowerCase_ascii _ fun c member => (chars c member).1]
      exact asciiLower_eq_self fun c member => (chars c member).2.1
    rw [serializeHost, serializeIPv4_ipv4Number, lawful.write_ipv4,
      parseHost_domain (by simp [dotted]) lower fun c member => (chars c member).2.2,
      if_pos (endsInANumber_dotted b0 b1 b2 b3), parseIPv4_dotted lawful]
    rfl
  | domain t nonempty lower allowed notNumber =>
    rw [serializeHost, parseHost_domain nonempty lower allowed, if_neg (by simp [notNumber])]
  | plain t allowed encoded =>
    have bracket : t.head? ≠ some '[' := by
      intro first
      exact allowed '[' (List.mem_of_head? first) (by decide)
    rw [serializeHost, parseHost, if_neg bracket, if_pos (by rfl), parseOpaqueHost, if_neg]
    · rw [utf8PercentEncode_of_copied encoded]
      rfl
    · simpa [containsForbiddenHostCodePoint] using allowed

/-- An IPv6 address that is written with dots is not read back. -/
theorem parseHost_writtenDotted (lawful : native.Lawful) (ok : HostOk native special h)
    (written : WrittenDotted native h) :
    parseHost native (serializeHost native h) special = .ok none := by
  obtain ⟨address, rfl, dotted⟩ := written
  cases ok with
  | ipv6 _ bytes length =>
    rw [serializeIPv6_piecesOf native length] at dotted
    rw [serializeHost, parseHost_bracketed, serializeIPv6_piecesOf native length,
      parseIPv6_dotted lawful length dotted]
    rfl

end ReadBack

end QjsLws.Url
