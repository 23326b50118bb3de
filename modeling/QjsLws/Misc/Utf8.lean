import QjsLws.Misc.Text

/-!
# Strict UTF-8 decoding

Decodes one character after the other and stops at the first malformed sequence.
-/

namespace QjsLws.Misc

/-- The character at the front of the bytes. -/
def decodeChar (bytes : List UInt8) : Option Char := bytes.toByteArray.utf8DecodeChar? 0

/-- Decodes at most `fuel` characters; fails with the offset of what is malformed. -/
def decodeFrom (offset : Nat) : Nat → List UInt8 → Except Nat Text
  | 0, _ | _, [] => .ok []
  | fuel + 1, bytes =>
    match decodeChar bytes with
    | none => .error offset
    | some c =>
      match decodeFrom (offset + c.utf8Size) fuel (bytes.drop c.utf8Size) with
      | .ok rest => .ok (c :: rest)
      | .error e => .error e

/-- The text with the given encoding, or the offset of the first malformed sequence. -/
def decodeUtf8 (bytes : List UInt8) : Except Nat Text := decodeFrom 0 bytes.length bytes

theorem decodeChar_encode (c : Char) (rest : List UInt8) :
    decodeChar (String.utf8EncodeChar c ++ rest) = some c := by
  unfold decodeChar
  rw [List.toByteArray_append]
  exact ByteArray.utf8DecodeChar?_utf8EncodeChar_append

theorem decodeFrom_utf8 (t : Text) :
    ∀ offset fuel, t.length ≤ fuel → decodeFrom offset fuel (utf8 t) = .ok t := by
  induction t with
  | nil =>
    intro offset fuel _
    cases fuel <;> rfl
  | cons c t ih =>
    intro offset fuel enough
    obtain ⟨fuel, rfl⟩ : ∃ n, fuel = n + 1 :=
      Nat.exists_eq_add_one_of_ne_zero (by rw [List.length_cons] at enough; omega)
    have bytes : utf8 (c :: t) = String.utf8EncodeChar c ++ utf8 t := rfl
    have size : (String.utf8EncodeChar c).length = c.utf8Size := String.length_utf8EncodeChar c
    have tail : (utf8 (c :: t)).drop c.utf8Size = utf8 t := by
      rw [bytes, ← size, List.drop_left]
    have next := ih (offset + c.utf8Size) fuel (Nat.le_of_succ_le_succ enough)
    have front : decodeChar (utf8 (c :: t)) = some c := by rw [bytes, decodeChar_encode]
    cases nonempty : utf8 (c :: t) with
    | nil => exact absurd nonempty (utf8_ne_nil (List.cons_ne_nil c t))
    | cons b bs =>
      rw [nonempty] at front tail
      simp only [decodeFrom, front, tail, next]

theorem length_le_utf8 (t : Text) : t.length ≤ (utf8 t).length := by
  induction t with
  | nil => exact Nat.le_refl 0
  | cons c t ih =>
    have size : (utf8 (c :: t)).length = c.utf8Size + (utf8 t).length := by
      rw [← String.length_utf8EncodeChar, ← List.length_append]
      rfl
    have := c.utf8Size_pos
    rw [size, List.length_cons]
    omega

/-- Decoding undoes encoding. -/
@[simp] theorem decodeUtf8_utf8 (t : Text) : decodeUtf8 (utf8 t) = .ok t :=
  decodeFrom_utf8 t 0 _ (length_le_utf8 t)

/-- Only no bytes decode to the empty text. -/
theorem decodeUtf8_eq_nil {bytes : List UInt8} (empty : decodeUtf8 bytes = .ok []) : bytes = [] := by
  cases bytes with
  | nil => rfl
  | cons b bs =>
    unfold decodeUtf8 at empty
    rw [List.length_cons] at empty
    simp only [decodeFrom] at empty
    split at empty
    · cases empty
    · split at empty <;> cases empty

/-- A byte below 128 stands for its own character. -/
theorem toNat_of_mem_utf8EncodeChar {c : Char} {b : UInt8} (member : b ∈ String.utf8EncodeChar c)
    (small : b.toNat < 128) : c.toNat = b.toNat := by
  have value : c.val.toNat = c.toNat := rfl
  unfold String.utf8EncodeChar at member
  simp only [value] at member
  split at member
  · rw [List.mem_singleton.mp member, UInt8.toNat_ofNat']
    omega
  · split at member
    · simp only [List.mem_cons, List.not_mem_nil, or_false] at member
      rcases member with rfl | rfl <;> rw [UInt8.toNat_ofNat'] at small <;> omega
    · split at member
      · simp only [List.mem_cons, List.not_mem_nil, or_false] at member
        rcases member with rfl | rfl | rfl <;> rw [UInt8.toNat_ofNat'] at small <;> omega
      · simp only [List.mem_cons, List.not_mem_nil, or_false] at member
        rcases member with rfl | rfl | rfl | rfl <;> rw [UInt8.toNat_ofNat'] at small <;> omega

/-! ## What decodes -/

theorem exists_of_decodeChar {bytes : List UInt8} {c : Char} (front : decodeChar bytes = some c) :
    ∃ rest, bytes = String.utf8EncodeChar c ++ rest := by
  obtain ⟨rest, same⟩ := ByteArray.exists_of_utf8DecodeChar?_eq_some front
  refine ⟨rest.data.toList, ?_⟩
  have lists := congrArg (fun array => array.data.toList) same
  simpa using lists

theorem eq_utf8_of_decodeFrom : ∀ fuel offset bytes t, bytes.length ≤ fuel →
    decodeFrom offset fuel bytes = .ok t → bytes = utf8 t := by
  intro fuel
  induction fuel with
  | zero =>
    intro offset bytes t enough decoded
    obtain rfl := List.length_eq_zero_iff.mp (Nat.le_zero.mp enough)
    cases decoded
    rfl
  | succ fuel ih =>
    intro offset bytes t enough decoded
    cases bytes with
    | nil =>
      cases decoded
      rfl
    | cons b bs =>
      rw [decodeFrom] at decoded
      · cases front : decodeChar (b :: bs) with
        | none => simp [front] at decoded
        | some c =>
          obtain ⟨rest, shape⟩ := exists_of_decodeChar front
          have size : (String.utf8EncodeChar c).length = c.utf8Size :=
            String.length_utf8EncodeChar c
          have positive := c.utf8Size_pos
          rw [shape, List.length_append, size] at enough
          simp only [front] at decoded
          rw [shape, ← size, List.drop_left] at decoded
          split at decoded
          · rename_i u later
            cases decoded
            rw [shape, ih _ _ _ (by omega) later]
            rfl
          · cases decoded
      · rintro ⟨⟩

/-- Bytes decode to a text exactly when they are its encoding. -/
theorem decodeUtf8_eq_ok {bytes : List UInt8} {t : Text} :
    decodeUtf8 bytes = .ok t ↔ bytes = utf8 t := by
  constructor
  · exact eq_utf8_of_decodeFrom _ 0 bytes t (Nat.le_refl _)
  · rintro rfl
    exact decodeUtf8_utf8 t

/-- Only the first byte of a character can start one. -/
theorem isFirst_iff_of_encode {c : Char} {before more : List UInt8} {b : UInt8}
    (shape : String.utf8EncodeChar c = before ++ b :: more) : b.IsUTF8FirstByte ↔ before = [] := by
  have bound : before.length < (String.utf8EncodeChar c).length := by
    rw [shape]
    simp
  have entry : (String.utf8EncodeChar c)[before.length] = b := by simp [shape]
  rw [← entry, UInt8.isUTF8FirstByte_getElem_utf8EncodeChar, List.length_eq_zero_iff]

/-- Bytes around a whole character are an encoding only when those on either side are. -/
theorem utf8_around {c : Char} {after : List UInt8} (u : Text) : ∀ {before : List UInt8},
    before ++ (String.utf8EncodeChar c ++ after) = utf8 u →
      ∃ d e, before = utf8 d ∧ after = utf8 e ∧ u = d ++ c :: e := by
  induction u with
  | nil =>
    intro before same
    have size := String.length_utf8EncodeChar c
    have positive := c.utf8Size_pos
    have lengths := congrArg List.length same
    simp [utf8] at lengths
    omega
  | cons d u ih =>
    intro before same
    have bytes : utf8 (d :: u) = String.utf8EncodeChar d ++ utf8 u := rfl
    rw [bytes] at same
    rcases List.append_eq_append_iff.mp same with ⟨more, split, rest⟩ | ⟨more, split, rest⟩
    · cases before with
      | nil =>
        have fronts := congrArg decodeChar same
        rw [List.nil_append, decodeChar_encode, decodeChar_encode] at fronts
        obtain rfl := Option.some.inj fronts
        exact ⟨[], u, rfl, List.append_cancel_left same, rfl⟩
      | cons b bs =>
        cases more with
        | nil =>
          obtain ⟨d', e, empty, rfl, rfl⟩ := @ih [] rest
          obtain rfl : d' = [] := not_not.mp fun some => utf8_ne_nil some empty.symm
          refine ⟨[d], e, ?_, rfl, rfl⟩
          rw [List.append_nil] at split
          rw [← split]
          exact (List.append_nil _).symm
        | cons b' more =>
          -- a character of `u` would start inside the character `d`
          cases shape : String.utf8EncodeChar c with
          | nil =>
            have size := String.length_utf8EncodeChar c
            have positive := c.utf8Size_pos
            rw [shape, List.length_nil] at size
            omega
          | cons f fs =>
            rw [shape] at rest
            obtain ⟨rfl, -⟩ := List.cons.inj rest
            have whole : String.utf8EncodeChar c = [] ++ f :: fs := shape
            have first := (isFirst_iff_of_encode whole).mpr rfl
            exact absurd ((isFirst_iff_of_encode split).mp first) (List.cons_ne_nil b bs)
    · obtain ⟨d', e, rfl, rfl, rfl⟩ := ih rest.symm
      exact ⟨d :: d', e, split, rfl, rfl⟩

/-- Decoding around a whole character. -/
theorem decodeUtf8_around (before after : List UInt8) (c : Char) :
    (decodeUtf8 (before ++ (String.utf8EncodeChar c ++ after))).toOption
      = (decodeUtf8 before).toOption.bind fun d => (decodeUtf8 after).toOption.map (d ++ c :: ·) := by
  have decoded : ∀ {bytes : List UInt8} {t : Text},
      (decodeUtf8 bytes).toOption = some t ↔ bytes = utf8 t := by
    intro bytes t
    rw [← decodeUtf8_eq_ok]
    cases decodeUtf8 bytes <;> simp [Except.toOption]
  apply Option.ext
  intro u
  simp only [Option.bind_eq_some_iff, Option.map_eq_some_iff, decoded]
  constructor
  · intro same
    obtain ⟨d, e, rfl, rfl, rfl⟩ := utf8_around u same
    exact ⟨d, rfl, e, rfl, rfl⟩
  · rintro ⟨d, rfl, e, rfl, rfl⟩
    simp [utf8]

end QjsLws.Misc
