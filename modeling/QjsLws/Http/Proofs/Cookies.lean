import Mathlib.Algebra.Order.BigOperators.Group.List
import QjsLws.Form.Proofs.Decoders
import QjsLws.Http.Cookies
import QjsLws.Misc.Cut

/-!
# Cookies, proofs

Values come back as they were. Names come back as they were encoded (`get_parse`), so the pairs come back
where no name needed that.
-/

namespace QjsLws.Http

open QjsLws.Misc

/-! ## `encodeURIComponent` -/

section Encode

variable {t rest : Text} {c : Char} {bytes : List UInt8}

/-- The digits of an escape. -/
theorem digit_upper {n : Nat} (small : n < 16) : (Nat.digitChar n).toUpper.isHexDigit = true ∧
    digitOf (Nat.digitChar n).toUpper = n ∧ isURIUnreserved (Nat.digitChar n).toUpper = true := by
  have all : ∀ n, n < 16 → (Nat.digitChar n).toUpper.isHexDigit = true ∧
      digitOf (Nat.digitChar n).toUpper = n ∧ isURIUnreserved (Nat.digitChar n).toUpper = true := by
    decide
  exact all n small

theorem encodeURIComponent_cons (c : Char) (t : Text) : encodeURIComponent (c :: t)
    = (if isURIUnreserved c then [c] else (String.utf8EncodeChar c).flatMap percentByte) ++
      encodeURIComponent t := List.flatMap_cons

theorem wellEscaped_bytes (bytes : List UInt8) (rest : Text) :
    Form.wellEscaped (bytes.flatMap percentByte ++ rest) = Form.wellEscaped rest := by
  induction bytes with
  | nil => rfl
  | cons b bytes ih =>
    obtain ⟨large, -, -⟩ := digit_upper (Nat.div_lt_of_lt_mul b.toNat_lt : b.toNat / 16 < 16)
    obtain ⟨small, -, -⟩ := digit_upper (Nat.mod_lt b.toNat (by decide) : b.toNat % 16 < 16)
    rw [List.flatMap_cons, List.append_assoc, percentByte]
    change Form.wellEscaped ('%' :: _ :: _ :: (bytes.flatMap percentByte ++ rest)) = _
    rw [Form.wellEscaped_percent, large, small, ih]
    rfl

theorem percentDecode_bytes (bytes : List UInt8) (rest : Text) :
    Url.percentDecodeBytes (utf8 (bytes.flatMap percentByte ++ rest))
      = bytes ++ Url.percentDecodeBytes (utf8 rest) := by
  induction bytes with
  | nil => rfl
  | cons b bytes ih =>
    obtain ⟨large, high, -⟩ := digit_upper (Nat.div_lt_of_lt_mul b.toNat_lt : b.toNat / 16 < 16)
    obtain ⟨small, low, -⟩ := digit_upper (Nat.mod_lt b.toNat (by decide) : b.toNat % 16 < 16)
    rw [List.flatMap_cons, List.append_assoc, percentByte]
    change Url.percentDecodeBytes (utf8 ('%' :: _ :: _ :: (bytes.flatMap percentByte ++ rest))) = _
    rw [Form.percentDecodeBytes_escape large small, high, low, ih, Nat.div_add_mod]
    simp

theorem not_percent (unreserved : isURIUnreserved c = true) : c ≠ '%' := by
  rintro rfl
  exact absurd unreserved (by decide)

theorem not_space (unreserved : isURIUnreserved c = true) : isStrWhiteSpace c = false := by
  have ascii : c.toNat < 128 := by
    rcases Bool.or_eq_true_iff.mp unreserved with alphanum | mark
    · exact ascii_of_isAlphanum alphanum
    · have marks : ∀ d ∈ "-_.!~*'()".toList, d.toNat < 128 := forall_mem_of_all (by decide)
      exact marks c (List.contains_iff_mem.mp mark)
  exact forall_ascii (P := fun c => isURIUnreserved c = true → isStrWhiteSpace c = false) (by decide)
    ascii unreserved

/-- `decodeURIComponent` undoes it. -/
theorem decode_encode (t : Text) : App.decodeURIComponent (encodeURIComponent t) = some t := by
  have escaped : Form.wellEscaped (encodeURIComponent t) = true := by
    induction t with
    | nil => rfl
    | cons c t ih =>
      rw [encodeURIComponent_cons]
      split
      · rename_i unreserved
        rw [List.singleton_append, Form.wellEscaped_cons (not_percent unreserved), ih]
      · rw [wellEscaped_bytes, ih]
  have decoded : Url.percentDecodeBytes (utf8 (encodeURIComponent t)) = utf8 t := by
    induction t with
    | nil => rfl
    | cons c t ih =>
      rw [encodeURIComponent_cons]
      split
      · rename_i unreserved
        rw [List.singleton_append, Form.percentDecodeBytes_cons (not_percent unreserved), ih (by
          rwa [encodeURIComponent_cons, if_pos unreserved, List.singleton_append,
            Form.wellEscaped_cons (not_percent unreserved)] at escaped)]
        rfl
      · rename_i reserved
        rw [percentDecode_bytes, ih (by
          rwa [encodeURIComponent_cons, if_neg reserved, wellEscaped_bytes] at escaped)]
        rfl
  rw [Form.decodeURIComponent_eq, if_pos escaped, Url.percentDecodeString, decoded, Url.toString,
    decodeUtf8_utf8]
  rfl

/-- It writes unreserved characters and percent signs. -/
theorem mem_encode (member : c ∈ encodeURIComponent t) : c = '%' ∨ isURIUnreserved c = true := by
  obtain ⟨d, -, inside⟩ := List.mem_flatMap.mp member
  split at inside
  · rename_i unreserved
    exact .inr (List.mem_singleton.mp inside ▸ unreserved)
  · obtain ⟨b, -, escape⟩ := List.mem_flatMap.mp inside
    have high := (digit_upper (Nat.div_lt_of_lt_mul b.toNat_lt : b.toNat / 16 < 16)).2.2
    have low := (digit_upper (Nat.mod_lt b.toNat (by decide) : b.toNat % 16 < 16)).2.2
    rw [percentByte, List.mem_cons, List.mem_cons, List.mem_singleton] at escape
    rcases escape with rfl | rfl | rfl
    · exact .inl rfl
    · exact .inr high
    · exact .inr low

theorem not_mem_encode (plain : c ≠ '%') (reserved : isURIUnreserved c = false) :
    c ∉ encodeURIComponent t := by
  intro member
  rcases mem_encode member with percent | unreserved
  · exact plain percent
  · rw [reserved] at unreserved
    cases unreserved

/-- What needs no escape is kept. -/
theorem encode_eq_self (unreserved : ∀ c ∈ t, isURIUnreserved c = true) : encodeURIComponent t = t := by
  induction t with
  | nil => rfl
  | cons c t ih =>
    rw [encodeURIComponent_cons, if_pos (unreserved c List.mem_cons_self),
      ih fun d member => unreserved d (List.mem_cons_of_mem _ member)]
    rfl

theorem length_escapes (bytes : List UInt8) :
    (bytes.flatMap percentByte).length = 3 * bytes.length := by
  induction bytes with
  | nil => rfl
  | cons b bytes ih =>
    rw [List.flatMap_cons, List.length_append, ih, List.length_cons, percentByte, List.length_cons,
      List.length_cons, List.length_singleton]
    omega

/-- An escape is longer than its character. -/
theorem length_encodeChar (c : Char) : 1 < ((String.utf8EncodeChar c).flatMap percentByte).length := by
  have size := String.length_utf8EncodeChar c
  have positive := c.utf8Size_pos
  rw [length_escapes]
  omega

theorem length_le_encode (t : Text) : t.length ≤ (encodeURIComponent t).length := by
  induction t with
  | nil => exact Nat.zero_le _
  | cons c t ih =>
    have longer := length_encodeChar c
    rw [encodeURIComponent_cons, List.length_append, List.length_cons]
    split
    · rw [List.length_singleton]
      omega
    · omega

/-- What needs an escape grows, and the result needs one. -/
theorem encode_of_reserved (member : c ∈ t) (reserved : isURIUnreserved c = false) :
    t.length < (encodeURIComponent t).length ∧ '%' ∈ encodeURIComponent t := by
  induction t with
  | nil => cases member
  | cons d t ih =>
    rw [encodeURIComponent_cons, List.length_append, List.length_cons, List.mem_append]
    rcases List.mem_cons.mp member with rfl | later
    · have longer := length_encodeChar c
      have rest := length_le_encode t
      have escape : '%' ∈ (String.utf8EncodeChar c).flatMap percentByte := by
        cases bytes : String.utf8EncodeChar c with
        | nil =>
          rw [bytes] at longer
          exact absurd longer (by decide)
        | cons b bytes => exact List.mem_cons_self
      rw [reserved, if_neg Bool.false_ne_true]
      exact ⟨by omega, .inl escape⟩
    · obtain ⟨grows, percent⟩ := ih later
      have longer := length_encodeChar d
      refine ⟨?_, .inr percent⟩
      split
      · rw [List.length_singleton]
        omega
      · omega

end Encode

/-! ## The header -/

section Header

variable {cookies : List Cookie} {cookie : Cookie} {out : Assoc Text Text} {t : Text} {k : Text}

/-- The two encoded texts. -/
def encoded (name value : Text) : Text := encodeURIComponent name ++ '=' :: encodeURIComponent value

/-- What stands between the pairs does not stand in them. -/
theorem not_mem_encoded {c : Char} (plain : c ≠ '%') (other : c ≠ '=') (reserved : isURIUnreserved c = false)
    (name value : Text) : c ∉ encoded name value := by
  intro member
  rcases List.mem_append.mp member with front | later
  · exact not_mem_encode plain reserved front
  · exact not_mem_encode plain reserved ((List.mem_cons.mp later).resolve_left other)

theorem join_front (part : Text) (rest : List Text) : ∃ u, join "; ".toList (part :: rest) = part ++ u ∧
    u.takeWhile (· ≠ ';') = [] := by
  cases rest with
  | nil => exact ⟨[], (List.append_nil _).symm, rfl⟩
  | cons next rest =>
    refine ⟨"; ".toList ++ join "; ".toList (next :: rest), ?_, rfl⟩
    rw [join, List.append_assoc]
    simp

/-- Whatever the options, the pair is the two encoded texts. -/
theorem pair_eq (cookie : Cookie) : cookie.pair = encoded cookie.name cookie.value := by
  have plain : ∀ c ∈ encoded cookie.name cookie.value, decide (c ≠ ';') = true := by
    intro c member
    rw [decide_eq_true_eq]
    rintro rfl
    exact not_mem_encoded (by decide) (by decide) (by decide) _ _ member
  rw [Cookie.pair, buildSetCookie]
  dsimp only
  simp only [List.cons_append, List.nil_append, List.append_assoc]
  obtain ⟨u, same, ends⟩ := join_front (encoded cookie.name cookie.value) _
  rw [encoded] at same
  rw [same, ← encoded, List.takeWhile_append_of_pos plain, ends, List.append_nil]

/-- A separator and a space between texts without it. -/
theorem split_join_spaced (first : Text) (rest : List Text) (absent : ∀ part ∈ first :: rest, ';' ∉ part) :
    split ';' (join "; ".toList (first :: rest)) = first :: rest.map (' ' :: ·) := by
  suffices ∀ (pad first : Text) (rest : List Text), ';' ∉ pad → (∀ part ∈ first :: rest, ';' ∉ part) →
      split ';' (pad ++ join "; ".toList (first :: rest)) = (pad ++ first) :: rest.map (' ' :: ·) from
    this [] first rest (by simp) absent
  intro pad first rest
  induction rest generalizing pad first with
  | nil =>
    intro clean absent
    apply split_of_not_mem
    rw [join, List.mem_append, not_or]
    exact ⟨clean, absent first List.mem_cons_self⟩
  | cons next rest ih =>
    intro clean absent
    have here : ';' ∉ pad ++ first := by
      rw [List.mem_append, not_or]
      exact ⟨clean, absent first List.mem_cons_self⟩
    have shape : pad ++ join "; ".toList (first :: next :: rest)
        = (pad ++ first) ++ ';' :: ([' '] ++ join "; ".toList (next :: rest)) := by
      rw [join]
      · simp
      · simp
    rw [shape, split_append_cons here,
      ih [' '] next (by decide) fun part member => absent part (List.mem_cons_of_mem _ member)]
    rfl

theorem strip_encode {pad : Text} (blank : ∀ c ∈ pad, isStrWhiteSpace c = true) (t : Text) :
    strip isStrWhiteSpace (pad ++ encodeURIComponent t) = encodeURIComponent t := by
  have visible : ∀ c ∈ encodeURIComponent t, isStrWhiteSpace c = false := by
    intro c member
    rcases mem_encode member with rfl | unreserved
    · decide
    · exact not_space unreserved
  have front : (pad ++ encodeURIComponent t).dropWhile isStrWhiteSpace
      = (encodeURIComponent t).dropWhile isStrWhiteSpace := List.dropWhile_append_of_pos blank
  have same := strip_eq_self visible
  rw [strip, front]
  exact same

theorem stripQuotes_encode (t : Text) : stripQuotes (encodeURIComponent t) = encodeURIComponent t := by
  have absent : '"' ∉ encodeURIComponent t := not_mem_encode (by decide) (by decide)
  have front : (encodeURIComponent t).head? ≠ some '"' := fun same => absent (List.mem_of_mem_head? same)
  have back : (encodeURIComponent t).getLast? ≠ some '"' := fun same =>
    absent (List.mem_of_mem_getLast? same)
  rw [stripQuotes, if_neg front, if_neg back]

theorem space : ∀ c ∈ [' '], isStrWhiteSpace c = true := List.forall_mem_singleton.mpr (by decide)

/-- A pair is read, its name as it stands. -/
theorem parseCookie_encoded {pad : Text} (blank : ∀ c ∈ pad, isStrWhiteSpace c = true) (solid : '=' ∉ pad)
    {name : Text} (named : name ≠ []) (value : Text) : parseCookie out (pad ++ encoded name value)
      = if out.has (encodeURIComponent name) then out else out.set (encodeURIComponent name) value := by
  have absent : '=' ∉ pad ++ encodeURIComponent name := by
    rw [List.mem_append, not_or]
    exact ⟨solid, not_mem_encode (by decide) (by decide)⟩
  have shape : pad ++ encoded name value
      = (pad ++ encodeURIComponent name) ++ '=' :: encodeURIComponent value := by
    rw [encoded, List.append_assoc]
  have front : (pad ++ encoded name value).takeWhile (· ≠ '=') = pad ++ encodeURIComponent name := by
    rw [shape, takeWhile_until absent]
  have back : ((pad ++ encoded name value).dropWhile (· ≠ '=')).drop 1 = encodeURIComponent value := by
    rw [shape, dropWhile_until absent]
    rfl
  have nonempty : encodeURIComponent name ≠ [] := by
    have longer := length_le_encode name
    have positive := List.length_pos_iff.mpr named
    intro empty
    rw [empty, List.length_nil] at longer
    omega
  have there : ¬ '=' ∉ pad ++ encoded name value := by
    rw [shape]
    simp
  have whole := @strip_encode [] (by simp) value
  rw [List.nil_append] at whole
  rw [parseCookie, if_neg there]
  dsimp only
  rw [front, back, strip_encode blank, whole, stripQuotes_encode, decode_encode, Option.getD_some]
  simp only [nonempty, false_or]

/-- The pairs are read one after another; the first of a name counts. -/
theorem get_fold (cookies : List Cookie) : ∀ out : Assoc Text Text,
    ((cookies.map fun cookie => ' ' :: cookie.pair).foldl parseCookie out).get k
      = (out.get k).or ((cookies.find? fun cookie => encodeURIComponent cookie.name = k).map
        Cookie.value) := by
  induction cookies with
  | nil =>
    intro out
    exact Option.or_none.symm
  | cons cookie cookies ih =>
    intro out
    have read := @parseCookie_encoded out [' '] space (by decide) cookie.name cookie.named cookie.value
    rw [List.singleton_append, ← pair_eq] at read
    rw [List.map_cons, List.foldl_cons, read, ih, List.find?_cons]
    by_cases same : encodeURIComponent cookie.name = k
    · subst same
      cases found : out.get (encodeURIComponent cookie.name) with
      | some v => simp [Assoc.has, found]
      | none => simp [Assoc.has, found]
    · split
      · simp [same]
      · rw [Assoc.get_set_ne _ _ same]
        simp [same]

/-- The parsed header has every value under the encoded name. -/
theorem get_parse (cookies : List Cookie) (k : Text) :
    (parseCookieHeader (some (cookieHeader cookies))).get k
      = (cookies.find? fun cookie => encodeURIComponent cookie.name = k).map Cookie.value := by
  cases cookies with
  | nil => rfl
  | cons cookie cookies =>
    have absent : ∀ part ∈ cookie.pair :: cookies.map Cookie.pair, ';' ∉ part := by
      intro part member
      rw [← List.map_cons (f := Cookie.pair)] at member
      obtain ⟨c, -, rfl⟩ := List.mem_map.mp member
      rw [pair_eq]
      exact not_mem_encoded (by decide) (by decide) (by decide) _ _
    have parts := split_join_spaced cookie.pair (cookies.map Cookie.pair) absent
    have nonempty : cookieHeader (cookie :: cookies) ≠ [] := by
      intro empty
      rw [cookieHeader, List.map_cons] at empty
      rw [empty, pair_eq, encoded] at parts
      simp [split] at parts
    have shape : parseCookieHeader (some (cookieHeader (cookie :: cookies)))
        = (split ';' (cookieHeader (cookie :: cookies))).foldl parseCookie .empty := by
      cases header : cookieHeader (cookie :: cookies) with
      | nil => exact absurd header nonempty
      | cons c t => rfl
    -- white space in front of the first pair would make no difference
    have first : ∀ out, parseCookie out cookie.pair = parseCookie out (' ' :: cookie.pair) := by
      intro out
      have bare := @parseCookie_encoded out [] (by simp) (by simp) cookie.name cookie.named cookie.value
      have spaced := @parseCookie_encoded out [' '] space (by decide) cookie.name cookie.named cookie.value
      rw [List.nil_append, ← pair_eq] at bare
      rw [List.singleton_append, ← pair_eq] at spaced
      rw [bare, spaced]
    have whole := @get_fold k (cookie :: cookies) .empty
    rw [Assoc.get_empty, Option.none_or] at whole
    rw [shape, cookieHeader, List.map_cons, parts, List.foldl_cons, first, List.map_map, ← whole]
    rfl

/-- The pairs come back exactly where no name has a character that is escaped. -/
theorem cookie_codec_iff (cookies : List Cookie) :
    (∀ k, (parseCookieHeader (some (cookieHeader cookies))).get k = cookieValue cookies k) ↔
      ∀ cookie ∈ cookies, ∀ c ∈ cookie.name, isURIUnreserved c = true := by
  constructor
  · intro same
    by_contra escaped
    push Not at escaped
    -- an escaped name comes back as a longer one that is escaped as well
    have longer : ∀ n, ∃ cookie ∈ cookies, n ≤ cookie.name.length ∧
        ∃ c ∈ cookie.name, isURIUnreserved c ≠ true := by
      intro n
      induction n with
      | zero =>
        obtain ⟨cookie, member, reserved⟩ := escaped
        exact ⟨cookie, member, Nat.zero_le _, reserved⟩
      | succ n ih =>
        obtain ⟨cookie, member, long, c, inside, reserved⟩ := ih
        have read := same (encodeURIComponent cookie.name)
        rw [get_parse, cookieValue] at read
        obtain ⟨grows, percent⟩ := encode_of_reserved inside (Bool.eq_false_of_not_eq_true reserved)
        have present : (cookies.find? fun other =>
            encodeURIComponent other.name = encodeURIComponent cookie.name).isSome = true :=
          List.find?_isSome.mpr ⟨cookie, member, by simp⟩
        rw [← Option.isSome_map (f := Cookie.value), read, Option.isSome_map] at present
        obtain ⟨other, there, named⟩ := List.find?_isSome.mp present
        rw [decide_eq_true_eq] at named
        exact ⟨other, there, by rw [named]; omega, '%', named ▸ percent, by decide⟩
    obtain ⟨cookie, member, long, -⟩ := longer ((cookies.map fun cookie => cookie.name.length).sum + 1)
    have bound := List.single_le_sum (by simp) _
      (List.mem_map_of_mem (f := fun cookie : Cookie => cookie.name.length) member)
    omega
  · intro unreserved k
    rw [get_parse, cookieValue]
    have same : cookies.filter (fun cookie => encodeURIComponent cookie.name = k)
        = cookies.filter fun cookie => cookie.name = k := by
      refine List.filter_congr fun cookie member => ?_
      rw [encode_eq_self (unreserved cookie member)]
    rw [← List.head?_filter, ← List.head?_filter, same]

/-- A name with a space comes back with its escape. -/
theorem name_escaped : ¬∀ k, (parseCookieHeader (some (cookieHeader
      [⟨"a b".toList, "1".toList, ⟨none, [], [], none, false, false, []⟩, by decide⟩]))).get k
    = cookieValue [⟨"a b".toList, "1".toList, ⟨none, [], [], none, false, false, []⟩, by decide⟩] k := by
  intro same
  have read := same "a b".toList
  rw [get_parse] at read
  revert read
  decide

end Header

end QjsLws.Http