import QjsLws.Url.Proofs.Numeric
import QjsLws.Misc.Cut

/-!
# The grammar of hosts

Which inputs `parseHost` takes for addresses and which for names, and when its hosts are read back.
Between brackets the native constructor parses on its own: it strips a second pair of brackets and
stops at a NUL character.
-/

namespace QjsLws.Url

open QjsLws.Misc

/-- The numeric parser accepts bare addresses only: no brackets, no ports, no other text. -/
def Native.Bare (native : Native) : Prop :=
  ∀ t bytes, native.parseNumericAddress t = some bytes →
    ∀ c ∈ t, c.isHexDigit = true ∨ c = ':' ∨ c = '.'

/-- What an input looks like that may be taken for the host. -/
inductive HostGrammar (native : Native) (input : Text) (special : Bool) : Host → Prop
  | ipv6 (x : Text) (bytes : List UInt8) (bracketed : input = '[' :: x ++ [']'])
    (unopened : '[' ∉ x) (unclosed : ']' ∉ x)
    (numeric : native.parseNumericAddress x = some bytes) (length : bytes.length = 16) :
    HostGrammar native input special (.ipv6 (piecesOf bytes))
  | ipv4 (domain : Text) (b0 b1 b2 b3 : UInt8) (decoded : percentDecodeString input = .ok domain)
    (number : endsInANumber (native.toLowerCase domain) = true)
    (numeric : native.parseNumericAddress (native.toLowerCase domain) = some [b0, b1, b2, b3]) :
    HostGrammar native input special (.ipv4 (ipv4Number b0 b1 b2 b3))
  | text (name : Text) (allowed : ∀ c ∈ name, c ∉ forbiddenHostCodePoints)
    (domain : special = true → ∀ c ∈ name, c ≠ '%' ∧ 0x1f < c.toNat ∧ c.toNat ≠ 0x7f) :
    HostGrammar native input special (.text name)

/-- Every host that is returned fits its input and is read back. -/
def HostSound (native : Native) (input : Text) (special : Bool) : Prop :=
  ∀ h, parseHost native input special = .ok (some h) →
    HostGrammar native input special h ∧
      parseHost native (serializeHost native h) special = .ok (some h)

/-- Where the constructor finds an IPv6 address between the brackets of the input, the whole text
between them is that address, and it is written without an IPv4 part. -/
def BareAddress (native : Native) (input : Text) : Prop :=
  ∀ x bytes, input = '[' :: x ++ [']'] → bytes.length = 16 →
    sockAddr46Address native x = .ok (some bytes) →
      native.parseNumericAddress x = some bytes ∧ '.' ∉ native.writeNumericAddress bytes

section Grammar

variable {native : Native} {input : Text} {special : Bool} {h : Host}

theorem piecesOf_injective {first second : List UInt8} (length : first.length = 16)
    (length' : second.length = 16) (same : piecesOf first = piecesOf second) : first = second := by
  rw [← @bytes_of_piecesOf first (by rw [length]), same,
    bytes_of_piecesOf (by rw [length'])]

theorem bracketed_inj {x y : Text} (same : '[' :: x ++ [']'] = '[' :: y ++ [']']) : x = y := by
  simpa using same

/-- A bare address has no brackets. -/
theorem Native.Bare.unbracketed (bare : native.Bare) {t : Text} {bytes : List UInt8}
    (numeric : native.parseNumericAddress t = some bytes) : '[' ∉ t ∧ ']' ∉ t := by
  refine ⟨fun member => ?_, fun member => ?_⟩
  all_goals
    rcases bare t bytes numeric _ member with digit | colon | dot
    · revert digit
      decide
    · cases colon
    · cases dot

/-- A domain that passed the checks goes to the numeric parser as it is. -/
theorem sockAddr46Address_of_domain {t : Text} (allowed : ∀ c ∈ t, forbiddenInDomain c = false) :
    sockAddr46Address native t = .ok (native.parseNumericAddress t) := by
  have fine : ∀ c ∈ t, c ∉ forbiddenHostCodePoints := fun c member =>
    (not_forbidden_of_domain (allowed c member)).1
  have visible : ∀ c ∈ t, c ≠ Char.ofNat 0 := by
    rintro c member rfl
    exact fine _ member (by decide)
  have bracket : '[' ∉ t := fun member => fine _ member (by decide)
  have colon : t.takeWhile (· ≠ ':') = t := takeWhile_whole fun member => fine _ member (by decide)
  rw [sockAddr46Address_of_plain visible bracket, colon, ite_self]

/-- What is returned fits the input, if the address between the brackets is bare. -/
theorem hostGrammar_of_parseHost (bare : native.Bare) (whole : BareAddress native input)
    (parsed : parseHost native input special = .ok (some h)) :
    HostGrammar native input special h := by
  rcases parseHost_cases parsed with ⟨x, bytes, bracketed, length, read, rfl⟩ |
    ⟨rfl, allowed, rfl⟩ |
    ⟨domain, rfl, nonempty, decoded, allowed, ⟨number, b0, b1, b2, b3, read, rfl⟩ |
      ⟨notNumber, rfl⟩⟩
  · obtain ⟨numeric, -⟩ := whole x bytes bracketed length read
    obtain ⟨unopened, unclosed⟩ := bare.unbracketed numeric
    exact .ipv6 x bytes bracketed unopened unclosed numeric length
  · have escapes : ∀ x ∈ escapeChars, x ∉ forbiddenHostCodePoints :=
      forall_mem_of_all (by decide)
    refine .text _ ?_ (by simp)
    exact forall_mem_utf8PercentEncode escapes fun c member _ => allowed c member
  · rw [sockAddr46Address_of_domain allowed] at read
    exact .ipv4 domain b0 b1 b2 b3 decoded number (by simpa using read)
  · refine .text _ (fun c member => (not_forbidden_of_domain (allowed c member)).1) ?_
    intro _ c member
    obtain ⟨-, percent, control⟩ := not_forbidden_of_domain (allowed c member)
    have del : c.toNat ≠ 0x7f := by
      intro code
      have refused : forbiddenInDomain c = true := by simp [forbiddenInDomain, code]
      rw [allowed c member] at refused
      cases refused
    exact ⟨percent, control, del⟩

/-- A bare address is not written with dots. -/
theorem undotted_of_bareAddress (whole : BareAddress native input)
    (parsed : parseHost native input special = .ok (some h)) : ¬WrittenDotted native h := by
  rintro ⟨address, rfl, dotted⟩
  rcases parseHost_cases parsed with ⟨x, bytes, bracketed, length, read, eq⟩ | ⟨-, -, eq⟩ |
    ⟨_, -, -, -, -, ⟨-, _, _, _, _, -, eq⟩ | ⟨-, eq⟩⟩
  · cases eq
    rw [serializeIPv6_piecesOf native length] at dotted
    exact (whole x bytes bracketed length read).2 dotted
  all_goals cases eq

/-- The hosts of an input fit it and are read back exactly when an IPv6 address found between its
brackets is the whole text between them and is written without dots. -/
theorem hostSound_iff (lawful : native.Lawful) (bare : native.Bare) :
    HostSound native input special ↔ BareAddress native input := by
  constructor
  · rintro sound x bytes rfl length read
    have parsed : parseHost native ('[' :: x ++ [']']) special
        = .ok (some (.ipv6 (piecesOf bytes))) := by
      rw [parseHost_bracketed, parseIPv6, read]
      simp [Except.map, length]
    obtain ⟨fits, back⟩ := sound _ parsed
    have numeric : native.parseNumericAddress x = some bytes := by
      generalize host : Host.ipv6 (piecesOf bytes) = h at fits
      cases fits with
      | ipv6 y bytes' bracketed _ _ numeric length' =>
        cases bracketed_inj bracketed
        rw [numeric, piecesOf_injective length length' (Host.ipv6.inj host)]
      | ipv4 _ _ _ _ _ => cases host
      | text _ => cases host
    refine ⟨numeric, fun dotted => ?_⟩
    have lost := parseHost_writtenDotted lawful (HostOk.ipv6 special bytes length)
      ⟨_, rfl, by rwa [serializeIPv6_piecesOf native length]⟩
    rw [back] at lost
    cases lost
  · intro whole h parsed
    refine ⟨hostGrammar_of_parseHost bare whole parsed, ?_⟩
    exact parseHost_serializeHost lawful (hostOk_of_parseHost lawful parsed)
      (undotted_of_bareAddress whole parsed)

end Grammar

section Examples

theorem number_digits {t : Text} {n : Nat} (read : number t = some n) :
    ∀ c ∈ t, c.isDigit = true := by
  unfold number at read
  split at read
  · rename_i digits
    exact List.all_eq_true.mp digits.2
  · cases read

theorem mapM_number_digits {parts : List Text} {numbers : List Nat}
    (read : parts.mapM number = some numbers) : ∀ part ∈ parts, ∀ c ∈ part, c.isDigit = true := by
  induction parts generalizing numbers with
  | nil => simp
  | cons part parts ih =>
    rw [List.mapM_cons] at read
    obtain ⟨n, first, read⟩ := Option.bind_eq_some_iff.mp read
    obtain ⟨rest, later, -⟩ := Option.bind_eq_some_iff.mp read
    intro p member
    rcases List.mem_cons.mp member with rfl | inside
    · exact number_digits first
    · exact ih later p inside

theorem mem_of_readDotted {t : Text} {bytes : List UInt8} (read : readDotted t = some bytes)
    {c : Char} (member : c ∈ t) : c.isHexDigit = true ∨ c = ':' ∨ c = '.' := by
  obtain ⟨numbers, parts, -⟩ := Option.bind_eq_some_iff.mp read
  rcases @mem_split '.' _ _ member with dot | ⟨part, inside, found⟩
  · exact .inr (.inr dot)
  · exact .inl (isHexDigit_of_isDigit (mapM_number_digits parts part inside c found))

theorem mem_of_readPieces {t : Text} {bytes : List UInt8} (read : readPieces t = some bytes)
    {c : Char} (member : c ∈ t) : c.isHexDigit = true ∨ c = ':' ∨ c = '.' := by
  simp only [readPieces] at read
  split at read
  · rename_i shape
    rcases @mem_split ':' _ _ member with colon | ⟨part, inside, found⟩
    · exact .inr (.inl colon)
    · have digits := List.all_eq_true.mp shape.2 part inside
      rw [Bool.and_eq_true] at digits
      exact .inl (List.all_eq_true.mp digits.1 c found)
  · cases read

theorem bare_numericNative : numericNative.Bare := by
  intro t bytes read c member
  have read : readNumeric t = some bytes := read
  unfold readNumeric at read
  split at read
  · rename_i start
    obtain ⟨rest, rfl⟩ := List.isPrefixOf_iff_prefix.mp start
    obtain ⟨last, dotted, -⟩ := Option.map_eq_some_iff.mp read
    rw [List.drop_left] at dotted
    rcases List.mem_append.mp member with front | later
    · have check : ∀ c ∈ mappedText, c.isHexDigit = true ∨ c = ':' ∨ c = '.' :=
        forall_mem_of_all (by decide)
      exact check c front
    · exact mem_of_readDotted dotted later
  · split at read
    · exact mem_of_readPieces read member
    · exact mem_of_readDotted read member

/-- The constructor strips the second pair of brackets. -/
theorem double_brackets_unsound :
    numericNative.Lawful ∧ numericNative.Bare ∧
      parseHost numericNative "[[0:0:0:0:0:0:0:1]]".toList true
        = .ok (some (.ipv6 [0, 0, 0, 0, 0, 0, 0, 1])) ∧
      ¬HostSound numericNative "[[0:0:0:0:0:0:0:1]]".toList true := by
  have parsed : parseHost numericNative "[[0:0:0:0:0:0:0:1]]".toList true
      = .ok (some (.ipv6 [0, 0, 0, 0, 0, 0, 0, 1])) := by decide +kernel
  refine ⟨lawful_numericNative, bare_numericNative, parsed, ?_⟩
  intro sound
  obtain ⟨fits, -⟩ := sound _ parsed
  generalize host : Host.ipv6 [0, 0, 0, 0, 0, 0, 0, 1] = h at fits
  cases fits with
  | ipv6 x bytes bracketed unopened _ _ _ =>
    have text : "[[0:0:0:0:0:0:0:1]]".toList = '[' :: "[0:0:0:0:0:0:0:1]".toList ++ [']'] := by
      decide
    have inner : x = "[0:0:0:0:0:0:0:1]".toList := bracketed_inj (bracketed.symm.trans text)
    rw [inner] at unopened
    exact unopened (by decide)
  | ipv4 _ _ _ _ _ => cases host
  | text _ => cases host

theorem hostSound_loopback : HostSound numericNative "[0:0:0:0:0:0:0:1]".toList true := by
  rw [hostSound_iff lawful_numericNative bare_numericNative]
  intro x bytes bracketed _ read
  have text : "[0:0:0:0:0:0:0:1]".toList = '[' :: "0:0:0:0:0:0:0:1".toList ++ [']'] := by decide
  have inner : x = "0:0:0:0:0:0:0:1".toList := bracketed_inj (bracketed.symm.trans text)
  have known : sockAddr46Address numericNative "0:0:0:0:0:0:0:1".toList
      = .ok (some [0, 0, 0, 0, 0, 0, 0, 0, 0, 0, 0, 0, 0, 0, 0, 1]) := by decide +kernel
  rw [inner, known] at read
  cases read
  rw [inner]
  decide +kernel

end Examples

end QjsLws.Url
