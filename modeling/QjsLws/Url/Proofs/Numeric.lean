import QjsLws.Url.Proofs.RoundTrip

/-!
# A numeric address codec

One lawful codec for addresses: dotted IPv4, eight hexadecimal pieces for IPv6, and
`::ffff:1.2.3.4` for an IPv4 address mapped into IPv6, as libwebsockets writes it.
-/

namespace QjsLws.Url

open QjsLws.Misc

/-- The first twelve bytes of a mapped IPv4 address. -/
def mappedBytes : List UInt8 := [0, 0, 0, 0, 0, 0, 0, 0, 0, 0, 255, 255]

/-- What stands before a mapped IPv4 address. -/
def mappedText : Text := "::ffff:".toList

/-- The bytes of a piece. -/
def pieceBytes (piece : Nat) : List UInt8 := [UInt8.ofNat (piece / 256), UInt8.ofNat (piece % 256)]

/-- Writes bytes as decimal numbers. -/
def writeDotted (bytes : List UInt8) : Text := join ['.'] (bytes.map fun b => decimal b.toNat)

/-- Writes four or sixteen bytes. -/
def writeNumeric (bytes : List UInt8) : Text :=
  if bytes.length = 16 then
    if bytes.take 12 = mappedBytes then mappedText ++ writeDotted (bytes.drop 12)
    else join [':'] ((piecesOf bytes).map hex)
  else writeDotted bytes

/-- Reads four decimal numbers. -/
def readDotted (t : Text) : Option (List UInt8) :=
  ((split '.' t).mapM number).bind fun numbers =>
    if numbers.length = 4 ∧ numbers.all (· < 256) then some (numbers.map UInt8.ofNat) else none

/-- Reads eight hexadecimal pieces. -/
def readPieces (t : Text) : Option (List UInt8) :=
  let parts := split ':' t
  if parts.length = 8 ∧ parts.all fun part => part.all Char.isHexDigit && parseInt 16 part < 65536
  then some (parts.flatMap fun part => pieceBytes (parseInt 16 part))
  else none

/-- Reads an address. -/
def readNumeric (t : Text) : Option (List UInt8) :=
  if mappedText.isPrefixOf t then (readDotted (t.drop mappedText.length)).map (mappedBytes ++ ·)
  else if t.contains ':' then readPieces t
  else readDotted t

/-- The codec, beside a `toLowerCase` for ASCII. -/
def numericNative : Native := ⟨asciiLower, readNumeric, writeNumeric⟩

theorem not_mem_decimal {c : Char} (other : c.isDigit = false) (n : Nat) : c ∉ decimal n := by
  intro member
  rw [isDigit_of_mem_decimal member] at other
  cases other

theorem mapM_number_decimal (bytes : List UInt8) :
    (bytes.map fun b => decimal b.toNat).mapM number = some (bytes.map UInt8.toNat) := by
  induction bytes with
  | nil => rfl
  | cons b rest ih =>
    rw [List.map_cons, List.mapM_cons, number_decimal, ih]
    rfl

theorem readDotted_writeDotted {bytes : List UInt8} (length : bytes.length = 4) :
    readDotted (writeDotted bytes) = some bytes := by
  have parts : split '.' (writeDotted bytes) = bytes.map fun b => decimal b.toNat := by
    apply split_join
    · intro none
      rw [List.map_eq_nil_iff.mp none] at length
      cases length
    · intro part member
      obtain ⟨b, -, rfl⟩ := List.mem_map.mp member
      exact not_mem_decimal rfl _
  have fits : (bytes.map UInt8.toNat).all (· < 256) = true := by
    rw [List.all_map, List.all_eq_true]
    intro b _
    simpa using b.toNat_lt
  have back : (bytes.map UInt8.toNat).map UInt8.ofNat = bytes := by simp [Function.comp_def]
  rw [readDotted, parts, mapM_number_decimal, Option.bind_some,
    if_pos ⟨by rw [List.length_map, length], fits⟩, back]

theorem readDotted_length {t : Text} {bytes : List UInt8} (read : readDotted t = some bytes) :
    bytes.length = 4 := by
  obtain ⟨numbers, -, result⟩ := Option.bind_eq_some_iff.mp read
  split at result
  · rename_i four
    cases result
    rw [List.length_map, four.1]
  · cases result

theorem not_mem_hex {c : Char} (other : c.isHexDigit = false) (n : Nat) : c ∉ hex n := by
  intro member
  rw [isHexDigit_of_mem_hex member] at other
  cases other

theorem piecesOf_lt {bytes : List UInt8} : ∀ piece ∈ piecesOf bytes, piece < 65536 := by
  induction bytes using piecesOf.induct with
  | case1 b b' rest ih =>
    intro piece member
    rw [piecesOf, List.mem_cons] at member
    rcases member with rfl | later
    · have := b.toNat_lt
      have := b'.toNat_lt
      omega
    · exact ih piece later
  | case2 bytes short =>
    intro piece member
    rcases bytes with _ | ⟨b, _ | ⟨b', rest⟩⟩
    · cases member
    · cases member
    · exact absurd rfl (short b b' rest)

theorem piecesOf_length {bytes : List UInt8} : (piecesOf bytes).length = bytes.length / 2 := by
  induction bytes using piecesOf.induct with
  | case1 b b' rest ih =>
    rw [piecesOf, List.length_cons, ih]
    simp only [List.length_cons]
    omega
  | case2 bytes short =>
    rcases bytes with _ | ⟨b, _ | ⟨b', rest⟩⟩
    · rfl
    · simp [piecesOf]
    · exact absurd rfl (short b b' rest)

theorem split_pieces {bytes : List UInt8} (length : bytes.length = 16) :
    split ':' (join [':'] ((piecesOf bytes).map hex)) = (piecesOf bytes).map hex := by
  apply split_join
  · intro none
    have count : ((piecesOf bytes).map hex).length = 8 := by
      rw [List.length_map, piecesOf_length, length]
    rw [none] at count
    cases count
  · intro part member
    obtain ⟨piece, -, rfl⟩ := List.mem_map.mp member
    exact not_mem_hex rfl piece

theorem readPieces_pieces {bytes : List UInt8} (length : bytes.length = 16) :
    readPieces (join [':'] ((piecesOf bytes).map hex)) = some bytes := by
  have count : ((piecesOf bytes).map hex).length = 8 := by
    rw [List.length_map, piecesOf_length, length]
  have fits : ((piecesOf bytes).map hex).all
      (fun part => part.all Char.isHexDigit && parseInt 16 part < 65536) = true := by
    rw [List.all_eq_true]
    intro part member
    obtain ⟨piece, inside, rfl⟩ := List.mem_map.mp member
    have digits : (hex piece).all Char.isHexDigit = true :=
      List.all_eq_true.mpr fun c member => isHexDigit_of_mem_hex member
    simp [digits, parseInt_hex, piecesOf_lt piece inside]
  have same : ((piecesOf bytes).map hex).flatMap (fun part => pieceBytes (parseInt 16 part))
      = bytes := by
    simp only [List.flatMap_map, parseInt_hex]
    exact bytes_of_piecesOf (by rw [length])
  simp only [readPieces, split_pieces length]
  rw [if_pos ⟨count, fits⟩, same]

/-- The written pieces: eight or more characters, the first of them a digit. -/
theorem pieces_shape {bytes : List UInt8} (length : bytes.length = 16) :
    ':' ∈ join [':'] ((piecesOf bytes).map hex) ∧
      ¬mappedText.isPrefixOf (join [':'] ((piecesOf bytes).map hex)) := by
  have count : (piecesOf bytes).length = 8 := by rw [piecesOf_length, length]
  match piecesOf bytes, count with
  | first :: second :: rest, _ =>
    have text : join [':'] ((first :: second :: rest).map hex)
        = hex first ++ ':' :: join [':'] ((second :: rest).map hex) := by simp [join]
    rw [text]
    refine ⟨by simp, ?_⟩
    cases digits : hex first with
    | nil => exact absurd digits Nat.toDigits_ne_nil
    | cons d more =>
      have digit : d.isHexDigit = true := isHexDigit_of_mem_hex (digits ▸ List.mem_cons_self)
      have other : ':' ≠ d := by
        rintro rfl
        revert digit
        decide
      simp [mappedText, List.isPrefixOf, other]

theorem mem_writeDotted {bytes : List UInt8} {c : Char} (member : c ∈ writeDotted bytes) :
    c.isDigit = true ∨ c = '.' := by
  rcases mem_join member with ⟨part, inside, found⟩ | between
  · obtain ⟨b, -, rfl⟩ := List.mem_map.mp inside
    exact .inl (isDigit_of_mem_decimal found)
  · exact .inr (List.mem_singleton.mp between)

theorem mem_pieces {pieces : List Nat} {c : Char} (member : c ∈ join [':'] (pieces.map hex)) :
    c.isHexDigit = true ∨ c = ':' := by
  rcases mem_join member with ⟨part, inside, found⟩ | between
  · obtain ⟨piece, -, rfl⟩ := List.mem_map.mp inside
    exact .inl (isHexDigit_of_mem_hex found)
  · exact .inr (List.mem_singleton.mp between)

theorem readNumeric_mapped (t : Text) :
    readNumeric (mappedText ++ t) = (readDotted t).map (mappedBytes ++ ·) := by
  have found : mappedText.isPrefixOf (mappedText ++ t) = true := by
    rw [List.isPrefixOf_iff_prefix]
    exact List.prefix_append _ _
  rw [readNumeric, if_pos found, List.drop_left]

theorem readNumeric_dotted {bytes : List UInt8} (length : bytes.length = 4) :
    readNumeric (writeDotted bytes) = some bytes := by
  have colon : ':' ∉ writeDotted bytes := by
    intro member
    rcases mem_writeDotted member with digit | dot
    · revert digit
      decide
    · revert dot
      decide
  have start : ¬mappedText.isPrefixOf (writeDotted bytes) = true := by
    rw [List.isPrefixOf_iff_prefix]
    rintro ⟨rest, text⟩
    apply colon
    rw [← text]
    exact List.mem_append_left _ (by decide)
  have without : ¬(writeDotted bytes).contains ':' = true := by simpa using colon
  rw [readNumeric, if_neg start, if_neg without, readDotted_writeDotted length]

theorem readNumeric_writeNumeric {bytes : List UInt8}
    (length : bytes.length = 4 ∨ bytes.length = 16) :
    readNumeric (writeNumeric bytes) = some bytes := by
  unfold writeNumeric
  rcases length with four | sixteen
  · rw [if_neg (by omega)]
    exact readNumeric_dotted four
  · rw [if_pos sixteen]
    by_cases mapped : bytes.take 12 = mappedBytes
    · have last : (bytes.drop 12).length = 4 := by
        rw [List.length_drop, sixteen]
      rw [if_pos mapped, readNumeric_mapped, readDotted_writeDotted last, Option.map_some, ← mapped,
        List.take_append_drop]
    · obtain ⟨colon, start⟩ := pieces_shape sixteen
      rw [if_neg mapped, readNumeric, if_neg start, if_pos (by simpa using colon),
        readPieces_pieces sixteen]

theorem colon_of_readNumeric {t : Text} {bytes : List UInt8} (read : readNumeric t = some bytes)
    (length : bytes.length = 16) : ':' ∈ t := by
  unfold readNumeric at read
  split at read
  · rename_i start
    obtain ⟨rest, rfl⟩ := List.isPrefixOf_iff_prefix.mp start
    exact List.mem_append_left _ (by decide)
  · split at read
    · rename_i colon
      simpa using colon
    · rw [readDotted_length read] at length
      cases length

theorem writeDotted_eq (b0 b1 b2 b3 : UInt8) :
    writeDotted [b0, b1, b2, b3] = dotted b0 b1 b2 b3 := by
  simp [writeDotted, join, dotted]

theorem lawful_numericNative : numericNative.Lawful where
  toLowerCase_idem t := by
    simp only [numericNative, asciiLower, List.map_map]
    exact List.map_congr_left fun c _ => toLower_toLower c
  toLowerCase_ascii t _ := rfl
  toLowerCase_ne_nil t nonempty := by simpa [numericNative, asciiLower] using nonempty
  parse_write bytes length := readNumeric_writeNumeric length
  write_ipv4 b0 b1 b2 b3 := by
    rw [← writeDotted_eq]
    rfl
  write_ipv6 bytes length c member := by
    simp only [numericNative, writeNumeric, if_pos length] at member
    split at member
    · rw [List.mem_append] at member
      rcases member with front | digits
      · have check : ∀ c ∈ mappedText, c.isHexDigit = true ∨ c = ':' ∨ c = '.' :=
          forall_mem_of_all (by decide)
        exact check c front
      · exact (mem_writeDotted digits).imp isHexDigit_of_isDigit .inr
    · exact (mem_pieces member).imp_right .inl
  parse_ipv6 t bytes read length := colon_of_readNumeric read length

/-- What `http://[::ffff:102:304]/` is parsed to. -/
def mappedUrl : URLRecord :=
  { newURLRecord with
    scheme := "http".toList
    host := some (.ipv6 [0, 0, 0, 0, 0, 0xffff, 0x102, 0x304])
    path := .segments [[]] }

theorem parsed_mappedUrl : Parsed numericNative mappedUrl :=
  .intro "http://[0:0:0:0:0:ffff:102:304]/".toList none (fun b no => by cases no)
    (by decide +kernel)

/-- The address is written as `::ffff:1.2.3.4`, and that text is cut at its first colon. -/
theorem mapped_address_not_readBack :
    numericNative.Lawful ∧ Parsed numericNative mappedUrl ∧
      serializeURL numericNative mappedUrl false = "http://[::ffff:1.2.3.4]/".toList ∧
      (parseURL numericNative "http://[::ffff:1.2.3.4]/".toList none).map Prod.snd = some .null ∧
      ¬RoundTrips numericNative mappedUrl := by
  have text : serializeURL numericNative mappedUrl false = "http://[::ffff:1.2.3.4]/".toList := by
    decide +kernel
  have null : (parseURL numericNative "http://[::ffff:1.2.3.4]/".toList none).map Prod.snd
      = some .null := by decide +kernel
  refine ⟨lawful_numericNative, parsed_mappedUrl, text, null, ?_⟩
  intro trips
  have same := trips none fun b no => by cases no
  rw [← text, same] at null
  cases null

/-- What `http://u:p@example.com:8080/a/b?q#f` is parsed to. -/
def exampleUrl : URLRecord :=
  { scheme := "http".toList
    username := "u".toList
    password := "p".toList
    host := some (.text "example.com".toList)
    port := some 8080
    path := .segments ["a".toList, "b".toList]
    query := some "q".toList
    fragment := some "f".toList }

theorem parsed_exampleUrl : Parsed numericNative exampleUrl :=
  .intro "http://u:p@example.com:8080/a/b?q#f".toList none (fun b no => by cases no)
    (by decide +kernel)

/-- What `file://h/x` is parsed to. -/
def fileUrl : URLRecord :=
  { newURLRecord with
    scheme := "file".toList
    host := some (.text "h".toList)
    path := .segments ["x".toList] }

theorem roundTrips_exampleUrl :
    Parsed numericNative exampleUrl ∧ RoundTrips numericNative exampleUrl := by
  refine ⟨parsed_exampleUrl, (roundTrips_iff lawful_numericNative parsed_exampleUrl).mpr ?_⟩
  rintro h host ⟨address, rfl, -⟩
  cases host

end QjsLws.Url
