import QjsLws.Url.SearchParams
import QjsLws.Url.Proofs.WellFormed
import QjsLws.Misc.Cut

/-!
# Search parameters read back

A serialized list is parsed to the list it came from, and it is a query. A query is parsed to the
same list before and after it is encoded.
-/

namespace QjsLws.Url

open QjsLws.Misc ParserInput

section Serialized

/-- What `formEncode` makes of one character. -/
def formChar (c : Char) : Text := if c = ' ' then ['+'] else encodeChar formExtra c

theorem plusForSpace_cons_of_ne {c : Char} (other : c ≠ '%') (t : Text) :
    plusForSpace (c :: t) = c :: plusForSpace t := by
  rw [plusForSpace]
  rintro rest ⟨⟩
  exact absurd rfl other

theorem ne_percent_digit : ∀ n, n < 16 → (Nat.digitChar n).toUpper ≠ '%' := by decide

theorem digit_eq_two : ∀ n, n < 16 → (Nat.digitChar n).toUpper = '2' → n = 2 := by decide

theorem digit_eq_zero : ∀ n, n < 16 → (Nat.digitChar n).toUpper = '0' → n = 0 := by decide

theorem plusForSpace_escape {b : UInt8} (other : b ≠ 0x20) (t : Text) :
    plusForSpace (percentEncodeByte b ++ t) = percentEncodeByte b ++ plusForSpace t := by
  have bound := b.toNat_lt
  have high : b.toNat / 16 < 16 := by omega
  have low : b.toNat % 16 < 16 := by omega
  have text : percentEncodeByte b ++ t = '%' :: (Nat.digitChar (b.toNat / 16)).toUpper ::
      (Nat.digitChar (b.toNat % 16)).toUpper :: t := rfl
  rw [text, plusForSpace, plusForSpace_cons_of_ne (ne_percent_digit _ high),
    plusForSpace_cons_of_ne (ne_percent_digit _ low)]
  · rfl
  · rintro rest - same
    injection same with two same
    injection same with zero
    apply other
    apply UInt8.toNat_inj.mp
    have highValue := digit_eq_two _ high two
    have lowValue := digit_eq_zero _ low zero
    have space : (0x20 : UInt8).toNat = 32 := rfl
    omega

theorem plusForSpace_escapes {bytes : List UInt8} (other : 0x20 ∉ bytes) (t : Text) :
    plusForSpace (bytes.flatMap percentEncodeByte ++ t)
      = bytes.flatMap percentEncodeByte ++ plusForSpace t := by
  induction bytes with
  | nil => rfl
  | cons b bytes ih =>
    rw [List.mem_cons, not_or] at other
    rw [List.flatMap_cons, List.append_assoc, plusForSpace_escape (Ne.symm other.1), ih other.2,
      List.append_assoc]

theorem space_not_mem {c : Char} (other : c ≠ ' ') : 0x20 ∉ String.utf8EncodeChar c := by
  intro member
  exact other (Char.toNat_inj.mp (toNat_of_mem_utf8EncodeChar member (by decide)))

theorem plusForSpace_encodeChar (c : Char) (t : Text) :
    plusForSpace (encodeChar formExtra c ++ t) = formChar c ++ plusForSpace t := by
  unfold formChar
  split
  · rename_i space
    rw [space]
    rfl
  · rename_i space
    by_cases keep : copied formExtra c = true
    · have percent : c ≠ '%' := by
        rintro rfl
        revert keep
        decide
      rw [encodeChar_of_copied keep, List.singleton_append, plusForSpace_cons_of_ne percent,
        List.singleton_append]
    · rw [encodeChar, if_neg keep, plusForSpace_escapes (space_not_mem space)]

theorem formEncode_eq (s : Text) : formEncode s = s.flatMap formChar := by
  unfold formEncode utf8PercentEncode
  induction s with
  | nil => rfl
  | cons c s ih => rw [List.flatMap_cons, plusForSpace_encodeChar, ih, List.flatMap_cons]

/-- The characters of serialized lists. -/
theorem mem_formEncode {P : Char → Prop} (escapes : ∀ x ∈ escapeChars, P x) (plus : P '+')
    (kept : ∀ c, copied formExtra c = true → P c) (s : Text) : ∀ x ∈ formEncode s, P x := by
  rw [formEncode_eq]
  intro x member
  obtain ⟨c, -, inside⟩ := List.mem_flatMap.mp member
  unfold formChar at inside
  split at inside
  · rw [List.mem_singleton.mp inside]
    exact plus
  · exact forall_mem_encodeChar escapes (kept c) x inside

theorem not_mem_formEncode {separator : Char} (escape : separator ∉ escapeChars)
    (plus : separator ≠ '+') (encoded : copied formExtra separator = false) (s : Text) :
    separator ∉ formEncode s := by
  intro member
  refine mem_formEncode (P := (· ≠ separator)) ?_ (Ne.symm plus) ?_ s separator member rfl
  · rintro x inside rfl
    exact escape inside
  · rintro c keep rfl
    rw [encoded] at keep
    cases keep

theorem spaceForPlus_append (t u : Text) :
    spaceForPlus (t ++ u) = spaceForPlus t ++ spaceForPlus u := List.map_append

theorem spaceForPlus_of_not_mem {t : Text} (absent : '+' ∉ t) : spaceForPlus t = t := by
  unfold spaceForPlus
  rw [List.map_congr_left (g := id), List.map_id]
  intro c member
  have other : c ≠ '+' := by
    rintro rfl
    exact absent member
  simp [other]

theorem spaceForPlus_escapes (bytes : List UInt8) :
    spaceForPlus (bytes.flatMap percentEncodeByte) = bytes.flatMap percentEncodeByte := by
  apply spaceForPlus_of_not_mem
  intro member
  obtain ⟨b, -, inside⟩ := List.mem_flatMap.mp member
  have plus := mem_percentEncodeByte inside
  revert plus
  decide

theorem decode_formChar (c : Char) (rest : List UInt8) :
    percentDecodeBytes (utf8 (spaceForPlus (formChar c)) ++ rest)
      = String.utf8EncodeChar c ++ percentDecodeBytes rest := by
  unfold formChar
  split
  · rename_i space
    rw [space]
    exact percentDecodeBytes_cons_of_ne (by decide) rest
  · by_cases keep : copied formExtra c = true
    · have ascii := ascii_of_copied keep
      have plain : c ≠ '+' ∧ UInt8.ofNat c.toNat ≠ 0x25 :=
        forall_ascii
          (P := fun c => copied formExtra c = true → c ≠ '+' ∧ UInt8.ofNat c.toNat ≠ 0x25)
          (by decide) ascii keep
      have same : spaceForPlus [c] = [c] := spaceForPlus_of_not_mem (by simp [Ne.symm plain.1])
      have bytes : utf8 [c] = [UInt8.ofNat c.toNat] := by
        rw [← utf8EncodeChar_ascii ascii]
        simp [utf8]
      rw [encodeChar_of_copied keep, same, bytes, utf8EncodeChar_ascii ascii,
        List.singleton_append, percentDecodeBytes_cons_of_ne plain.2, List.singleton_append]
    · rw [encodeChar, if_neg keep, spaceForPlus_escapes, percentDecodeBytes_escapes]

/-- An encoded name or value is decoded. -/
theorem decode_formEncode (s : Text) : percentDecodeString (spaceForPlus (formEncode s)) = .ok s := by
  have bytes : percentDecodeBytes (utf8 (spaceForPlus (formEncode s))) = utf8 s := by
    rw [formEncode_eq]
    induction s with
    | nil => rfl
    | cons c s ih =>
      rw [List.flatMap_cons, spaceForPlus_append, utf8_append, decode_formChar, ih]
      rfl
  simp [percentDecodeString, bytes, toString]

theorem parseFormSequence_pair (name value : Text) :
    parseFormSequence (formEncode name ++ '=' :: formEncode value) = .ok (name, value) := by
  have absent : '=' ∉ formEncode name :=
    not_mem_formEncode (by decide) (by decide) (by decide) name
  rw [parseFormSequence, takeWhile_until absent, dropWhile_until absent, List.drop_one, List.tail_cons,
    decode_formEncode, decode_formEncode]
  rfl

theorem serializeFormURLEncoded_eq_nil {list : List Param} :
    serializeFormURLEncoded list = [] ↔ list = [] := by
  unfold serializeFormURLEncoded
  match list with
  | [] => simp [join]
  | [pair] => simp [join]
  | first :: second :: rest => simp [join]

/-- The text of a pair between two separators. -/
def pairText (pair : Param) : Text := formEncode pair.1 ++ '=' :: formEncode pair.2

theorem separator_not_mem_pairText (pair : Param) : '&' ∉ pairText pair := by
  have absent : ∀ s, '&' ∉ formEncode s :=
    not_mem_formEncode (by decide) (by decide) (by decide)
  simp [pairText, absent]

/-- The pairs are cut apart where they were joined, and none of their texts is empty. -/
theorem sequences_serialize {list : List Param} (filled : list ≠ []) :
    (split '&' (serializeFormURLEncoded list)).filter (· ≠ []) = list.map pairText := by
  have parts : split '&' (serializeFormURLEncoded list) = list.map pairText := by
    apply split_join (by simpa using filled)
    intro part member
    obtain ⟨pair, -, rfl⟩ := List.mem_map.mp member
    exact separator_not_mem_pairText pair
  rw [parts, List.filter_eq_self]
  intro part member
  obtain ⟨pair, -, rfl⟩ := List.mem_map.mp member
  simp [pairText]

theorem mapM_parseFormSequence (list : List Param) :
    (list.map pairText).mapM parseFormSequence = .ok list := by
  induction list with
  | nil => rfl
  | cons pair list ih =>
    rw [List.map_cons, List.mapM_cons, pairText, parseFormSequence_pair, ih]
    rfl

/-- Parsing inverts serializing where there is something to parse. -/
theorem parseFormURLEncoded_filled {list : List Param} (filled : list ≠ []) :
    parseFormURLEncoded (serializeFormURLEncoded list) = .ok list := by
  have nonempty : serializeFormURLEncoded list ≠ [] := fun empty =>
    filled (serializeFormURLEncoded_eq_nil.mp empty)
  rw [parseFormURLEncoded, if_neg nonempty, sequences_serialize filled, mapM_parseFormSequence]

/-- Parsing inverts serializing: every list of pairs comes back in order, duplicates and empty
strings included. -/
theorem parseFormURLEncoded_serialize (list : List Param) :
    parseFormURLEncoded (serializeFormURLEncoded list) = .ok list := by
  by_cases filled : list = []
  · subst filled
    rfl
  · exact parseFormURLEncoded_filled filled

/-- A serialized list is a query of every URL. -/
theorem encoded_serialize (u : URLRecord) (list : List Param) :
    Encoded (querySet u) (serializeFormURLEncoded list) := by
  have check : ∀ c ∈ '+' :: '=' :: '&' :: escapeChars, copied (querySet u) c = true := by
    unfold querySet
    split <;> exact forall_mem_of_all (by decide)
  have kept : ∀ c, copied formExtra c = true → copied (querySet u) c = true := by
    intro c keep
    unfold querySet
    split
    · exact forall_ascii (P := fun c => copied formExtra c = true → copied specialQueryExtra c = true)
        (by decide) (ascii_of_copied keep) keep
    · exact forall_ascii (P := fun c => copied formExtra c = true → copied queryExtra c = true)
        (by decide) (ascii_of_copied keep) keep
  have half : ∀ s, ∀ c ∈ formEncode s, copied (querySet u) c = true :=
    mem_formEncode (fun c member => check c (by simp [member])) (check _ (by simp)) kept
  intro c member
  rcases mem_join member with ⟨part, inside, found⟩ | between
  · obtain ⟨pair, -, rfl⟩ := List.mem_map.mp inside
    rcases List.mem_append.mp found with inName | inValue
    · exact half _ c inName
    · rcases List.mem_cons.mp inValue with rfl | inValue
      · exact check _ (by simp)
      · exact half _ c inValue
  · rw [List.mem_singleton.mp between]
    exact check _ (by simp)

end Serialized

section Encoded

/-- The second text is the first with some characters, neither `%` nor digits, as escapes. -/
inductive Escapes : Text → Text → Prop
  | nil : Escapes [] []
  | keep (c : Char) {t u : Text} (rest : Escapes t u) : Escapes (c :: t) (c :: u)
  | escape (c : Char) (percent : c ≠ '%') (digit : c.isHexDigit = false) {t u : Text}
    (rest : Escapes t u) : Escapes (c :: t) ((String.utf8EncodeChar c).flatMap percentEncodeByte ++ u)

/-- Whether two digits come next. -/
def startsHex : List UInt8 → Bool
  | h1 :: h2 :: _ => isHexDigit h1 && isHexDigit h2
  | _ => false

theorem percentDecodeBytes_percent {bytes : List UInt8} (plain : startsHex bytes = false) :
    percentDecodeBytes (0x25 :: bytes) = 0x25 :: percentDecodeBytes bytes := by
  match bytes, plain with
  | [], _ => rfl
  | [_], _ => rfl
  | h1 :: h2 :: rest, plain =>
    have digits : (isHexDigit h1 && isHexDigit h2) = false := plain
    rw [percentDecodeBytes, if_neg]
    simpa using digits

theorem percentDecodeBytes_append_of_ne {bytes : List UInt8} (plain : 0x25 ∉ bytes)
    (rest : List UInt8) : percentDecodeBytes (bytes ++ rest) = bytes ++ percentDecodeBytes rest := by
  induction bytes with
  | nil => rfl
  | cons b bytes ih =>
    rw [List.mem_cons, not_or] at plain
    rw [List.cons_append, percentDecodeBytes_cons_of_ne (Ne.symm plain.1), ih plain.2]
    rfl

/-- A character that is no digit starts with no digit. -/
theorem head_not_hex {c : Char} (digit : c.isHexDigit = false) :
    ∃ b bytes, String.utf8EncodeChar c = b :: bytes ∧ isHexDigit b = false := by
  cases encoded : String.utf8EncodeChar c with
  | nil =>
    have size := String.length_utf8EncodeChar c
    rw [encoded] at size
    have := c.utf8Size_pos
    simp at size
    omega
  | cons b bytes =>
    refine ⟨b, bytes, rfl, ?_⟩
    by_contra hex
    rw [Bool.not_eq_false] at hex
    have small : b.toNat < 128 := by
      simp only [isHexDigit, Bool.or_eq_true, Bool.and_eq_true, decide_eq_true_eq,
        UInt8.le_iff_toNat_le, ge_iff_le] at hex
      have n1 : (0x39 : UInt8).toNat = 57 := rfl
      have n2 : (0x46 : UInt8).toNat = 70 := rfl
      have n3 : (0x66 : UInt8).toNat = 102 := rfl
      omega
    have code : c.toNat = b.toNat :=
      toNat_of_mem_utf8EncodeChar (encoded ▸ List.mem_cons_self) small
    have byte : b = UInt8.ofNat c.toNat := by rw [code, UInt8.ofNat_toNat]
    rw [byte] at hex
    have yes : c.isHexDigit = true :=
      forall_ascii (P := fun c => isHexDigit (UInt8.ofNat c.toNat) = true → c.isHexDigit = true)
        (by decide) (code ▸ small) hex
    rw [digit] at yes
    cases yes

theorem utf8_cons (c : Char) (t : Text) : utf8 (c :: t) = String.utf8EncodeChar c ++ utf8 t := rfl

theorem utf8_cons_hex {c : Char} (digit : c.isHexDigit = true) (t : Text) :
    utf8 (c :: t) = UInt8.ofNat c.toNat :: utf8 t ∧ isHexDigit (UInt8.ofNat c.toNat) = true := by
  have check : ∀ c ∈ "0123456789abcdefABCDEF".toList, c.toNat < 0x80 ∧
      isHexDigit (UInt8.ofNat c.toNat) = true := forall_mem_of_all (by decide)
  obtain ⟨ascii, hex⟩ := check c (mem_of_isHexDigit digit)
  rw [utf8_cons, utf8EncodeChar_ascii ascii]
  exact ⟨rfl, hex⟩

theorem startsHex_cons {c : Char} (digit : c.isHexDigit = false) (t : Text) :
    startsHex (utf8 (c :: t)) = false := by
  obtain ⟨b, bytes, encoded, other⟩ := head_not_hex digit
  rw [utf8_cons, encoded, List.cons_append]
  cases bytes ++ utf8 t with
  | nil => rfl
  | cons _ _ => simp [startsHex, other]

theorem startsHex_second {c : Char} (first : c.isHexDigit = true) {t : Text}
    (digit : ∀ d, t.head? = some d → d.isHexDigit = false) : startsHex (utf8 (c :: t)) = false := by
  rw [(utf8_cons_hex first t).1]
  cases t with
  | nil => rfl
  | cons d t =>
    obtain ⟨b, bytes, encoded, other⟩ := head_not_hex (digit d rfl)
    rw [utf8_cons, encoded]
    simp [startsHex, other]

/-- An escape starts with `%`. -/
theorem escape_head (c : Char) (u : Text) :
    ∃ rest, (String.utf8EncodeChar c).flatMap percentEncodeByte ++ u = '%' :: rest := by
  cases encoded : String.utf8EncodeChar c with
  | nil =>
    have size := String.length_utf8EncodeChar c
    rw [encoded] at size
    have := c.utf8Size_pos
    simp at size
    omega
  | cons b bytes => exact ⟨_, rfl⟩

/-- Two digits stand at the front of both texts, or of neither. -/
theorem Escapes.front {t u : Text} (esc : Escapes t u) :
    (∃ c d t' u', c.isHexDigit = true ∧ d.isHexDigit = true ∧ t = c :: d :: t' ∧ u = c :: d :: u' ∧
      Escapes t' u') ∨ startsHex (utf8 t) = false ∧ startsHex (utf8 u) = false := by
  cases esc with
  | nil => exact .inr ⟨rfl, rfl⟩
  | escape c percent digit rest =>
    obtain ⟨tail, text⟩ := escape_head c _
    rw [text]
    exact .inr ⟨startsHex_cons digit _, startsHex_cons (by decide) _⟩
  | keep c rest =>
    by_cases first : c.isHexDigit = true
    · cases rest with
      | nil => exact .inr ⟨startsHex_second first (by simp), startsHex_second first (by simp)⟩
      | escape d percent digit rest =>
        obtain ⟨tail, text⟩ := escape_head d _
        rw [text]
        refine .inr ⟨startsHex_second first ?_, startsHex_second first ?_⟩
        · rintro _ ⟨⟩
          exact digit
        · rintro _ ⟨⟩
          decide
      | keep d rest =>
        by_cases second : d.isHexDigit = true
        · exact .inl ⟨c, d, _, _, first, second, rfl, rfl, rest⟩
        · have other : d.isHexDigit = false := by simpa using second
          refine .inr ⟨startsHex_second first ?_, startsHex_second first ?_⟩
          · rintro _ ⟨⟩
            exact other
          · rintro _ ⟨⟩
            exact other
    · have other : c.isHexDigit = false := by simpa using first
      exact .inr ⟨startsHex_cons other _, startsHex_cons other _⟩

theorem percent_not_mem {c : Char} (other : c ≠ '%') : 0x25 ∉ String.utf8EncodeChar c := by
  intro member
  exact other (Char.toNat_inj.mp (toNat_of_mem_utf8EncodeChar member (by decide)))

/-- Escaping more does not change what is decoded. -/
theorem Escapes.decode {t u : Text} (esc : Escapes t u) :
    percentDecodeBytes (utf8 u) = percentDecodeBytes (utf8 t) := by
  -- Two characters are passed at a time after `%`, so the induction is on the length.
  induction length : t.length using Nat.strongRecOn generalizing t u with
  | ind n ih =>
    subst length
    cases esc with
    | nil => rfl
    | escape c percent digit rest =>
      rw [utf8_append, percentDecodeBytes_escapes, utf8_cons,
        percentDecodeBytes_append_of_ne (percent_not_mem percent), ih _ (by simp) rest rfl]
    | keep c rest =>
      by_cases percent : c = '%'
      · subst percent
        have text : ∀ t, utf8 ('%' :: t) = 0x25 :: utf8 t := fun _ => rfl
        rw [text, text]
        obtain ⟨c, d, t', u', first, second, rfl, rfl, later⟩ | ⟨plain, plain'⟩ := rest.front
        · obtain ⟨firstBytes, firstDigit⟩ := utf8_cons_hex first (d :: t')
          obtain ⟨secondBytes, secondDigit⟩ := utf8_cons_hex second t'
          rw [firstBytes, secondBytes, (utf8_cons_hex first _).1, (utf8_cons_hex second _).1,
            percentDecodeBytes, percentDecodeBytes, ih t'.length (by simp; omega) later rfl]
          simp [firstDigit, secondDigit]
        · rw [percentDecodeBytes_percent plain, percentDecodeBytes_percent plain',
            ih _ (by simp) rest rfl]
      · rw [utf8_cons, utf8_cons, percentDecodeBytes_append_of_ne (percent_not_mem percent),
          percentDecodeBytes_append_of_ne (percent_not_mem percent), ih _ (by simp) rest rfl]

/-- The characters of a query that have a meaning to `parseFormURLEncoded`. -/
def formMarks : List Char := "+=&%0123456789abcdefABCDEF".toList

theorem copied_formMarks (u : URLRecord) : ∀ c ∈ formMarks, copied (querySet u) c = true := by
  unfold querySet
  split <;> exact forall_mem_of_all (by decide)

theorem escapes_encode {extraSet : List Nat} (marks : ∀ c ∈ formMarks, copied extraSet c = true)
    (t : Text) : Escapes (spaceForPlus t) (spaceForPlus (utf8PercentEncode t extraSet)) := by
  induction t with
  | nil => exact .nil
  | cons c t ih =>
    rw [utf8PercentEncode, List.flatMap_cons, ← utf8PercentEncode, spaceForPlus_append]
    by_cases keep : copied extraSet c = true
    · rw [encodeChar_of_copied keep]
      exact .keep _ ih
    · have other : c ∉ formMarks := fun member => keep (marks c member)
      have same : (if c = '+' then ' ' else c) = c := by
        rw [if_neg]
        rintro rfl
        exact other (by decide)
      rw [encodeChar, if_neg keep, spaceForPlus_escapes, spaceForPlus, List.map_cons, same]
      refine .escape c ?_ ?_ ih
      · rintro rfl
        exact other (by decide)
      · by_contra digit
        rw [Bool.not_eq_false] at digit
        have check : ∀ c ∈ "0123456789abcdefABCDEF".toList, c ∈ formMarks :=
          forall_mem_of_all (by decide)
        exact other (check c (mem_of_isHexDigit digit))

section Separators

variable {e : Char → Text} {separator : Char} (fixed : e separator = [separator])
  (others : ∀ c, c ≠ separator → separator ∉ e c)

include others in
theorem separator_not_mem {t : Text} (absent : separator ∉ t) : separator ∉ t.flatMap e := by
  intro member
  obtain ⟨c, inside, found⟩ := List.mem_flatMap.mp member
  refine others c ?_ found
  rintro rfl
  exact absent inside

include fixed others

theorem split_flatMap (t : Text) :
    split separator (t.flatMap e) = (split separator t).map (·.flatMap e) := by
  induction length : t.length using Nat.strongRecOn generalizing t with
  | ind n ih =>
    by_cases member : separator ∈ t
    · obtain ⟨front, rest, rfl, absent⟩ := List.eq_append_cons_of_mem member
      rw [List.flatMap_append, List.flatMap_cons, fixed, List.singleton_append,
        split_append_cons (separator_not_mem others absent), split_append_cons absent, List.map_cons,
        ih rest.length (by rw [← length]; simp; omega) rest rfl]
    · rw [split_of_not_mem member, split_of_not_mem (separator_not_mem others member)]
      rfl

theorem takeWhile_dropWhile_flatMap (t : Text) :
    (t.flatMap e).takeWhile (· ≠ separator) = (t.takeWhile (· ≠ separator)).flatMap e ∧
      (t.flatMap e).dropWhile (· ≠ separator) = (t.dropWhile (· ≠ separator)).flatMap e := by
  induction t with
  | nil => exact ⟨rfl, rfl⟩
  | cons c t ih =>
    by_cases same : c = separator
    · subst same
      simp [fixed]
    · have plain : ∀ d ∈ e c, (decide (d ≠ separator)) = true := by
        intro d member
        rw [decide_eq_true_eq]
        rintro rfl
        exact others c same member
      rw [List.flatMap_cons, List.takeWhile_append_of_pos plain, List.dropWhile_append_of_pos plain,
        List.takeWhile_cons_of_pos (by simpa using same),
        List.dropWhile_cons_of_pos (by simpa using same), ih.1, ih.2, List.flatMap_cons]
      exact ⟨rfl, rfl⟩

end Separators

theorem encodeChar_separator {extraSet : List Nat} {separator c : Char}
    (escape : separator ∉ escapeChars) (other : c ≠ separator) :
    separator ∉ encodeChar extraSet c := by
  intro member
  refine forall_mem_encodeChar (P := (· ≠ separator)) ?_ (fun _ => other) separator member rfl
  rintro x inside rfl
  exact escape inside

theorem parseFormSequence_encode {extraSet : List Nat}
    (marks : ∀ c ∈ formMarks, copied extraSet c = true) (t : Text) :
    parseFormSequence (utf8PercentEncode t extraSet) = parseFormSequence t := by
  have decode : ∀ s, percentDecodeString (spaceForPlus (utf8PercentEncode s extraSet))
      = percentDecodeString (spaceForPlus s) := by
    intro s
    rw [percentDecodeString, percentDecodeString, (escapes_encode marks s).decode]
  have others : ∀ c, c ≠ '=' → '=' ∉ encodeChar extraSet c :=
    fun c other => encodeChar_separator (by decide) other
  obtain ⟨front, back⟩ := takeWhile_dropWhile_flatMap
    (encodeChar_of_copied (marks '=' (by decide))) others t
  have tail : ((t.dropWhile (· ≠ '=')).flatMap (encodeChar extraSet)).drop 1
      = ((t.dropWhile (· ≠ '=')).drop 1).flatMap (encodeChar extraSet) := by
    cases rest : t.dropWhile (· ≠ '=') with
    | nil => rfl
    | cons c rest' =>
      have equals : c = '=' := by
        have := List.head?_dropWhile_not (fun c => decide (c ≠ '=')) t
        rw [rest] at this
        simpa using this
      rw [equals, List.flatMap_cons, encodeChar_of_copied (marks '=' (by decide))]
      rfl
  rw [parseFormSequence, parseFormSequence, utf8PercentEncode, front, back, tail]
  rw [← utf8PercentEncode, ← utf8PercentEncode, decode, decode]

/-- Encoding a query does not change its pairs. -/
theorem parseFormURLEncoded_encode (u : URLRecord) (t : Text) :
    parseFormURLEncoded (utf8PercentEncode t (querySet u)) = parseFormURLEncoded t := by
  have marks := copied_formMarks u
  have others : ∀ c, c ≠ '&' → '&' ∉ encodeChar (querySet u) c :=
    fun c other => encodeChar_separator (by decide) other
  have parts := split_flatMap (encodeChar_of_copied (marks '&' (by decide))) others t
  have empty : ∀ s : Text, s.flatMap (encodeChar (querySet u)) = [] ↔ s = [] := by
    intro s
    cases s with
    | nil => simp
    | cons c s => simp [encodeChar_ne_nil]
  have read : ∀ list : List Text,
      ((list.map (·.flatMap (encodeChar (querySet u)))).filter (· ≠ [])).mapM parseFormSequence
        = (list.filter (· ≠ [])).mapM parseFormSequence := by
    intro list
    induction list with
    | nil => rfl
    | cons s list ih =>
      rw [List.map_cons]
      by_cases blank : s = []
      · rw [List.filter_cons_of_neg (by simp [blank]),
          List.filter_cons_of_neg (by simp [blank]), ih]
      · rw [List.filter_cons_of_pos (by simp [empty, blank]),
          List.filter_cons_of_pos (by simp [blank]), List.mapM_cons, List.mapM_cons, ih,
          ← utf8PercentEncode, parseFormSequence_encode marks]
  unfold parseFormURLEncoded
  rw [utf8PercentEncode, parts, read]
  simp only [empty]

end Encoded

end QjsLws.Url
