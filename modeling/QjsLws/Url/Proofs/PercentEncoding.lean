import QjsLws.Url.PercentEncoding

/-!
# Percent-encoding is stable

What was encoded with a set is copied when it is encoded with the set again.
-/

namespace QjsLws.Url

open QjsLws.Misc

variable {extraSet : List Nat} {c : Char} {t : Text}

/-- The characters an escape is made of. -/
def escapeChars : List Char := "%0123456789ABCDEF".toList

/-- The set does not encode the characters of an escape. -/
def KeepsEscapes (extraSet : List Nat) : Prop := ∀ c ∈ escapeChars, copied extraSet c = true

theorem keepsEscapes_fragmentExtra : KeepsEscapes fragmentExtra := forall_mem_of_all (by decide)
theorem keepsEscapes_queryExtra : KeepsEscapes queryExtra := forall_mem_of_all (by decide)
theorem keepsEscapes_specialQueryExtra : KeepsEscapes specialQueryExtra :=
  forall_mem_of_all (by decide)
theorem keepsEscapes_pathExtra : KeepsEscapes pathExtra := forall_mem_of_all (by decide)
theorem keepsEscapes_userinfoExtra : KeepsEscapes userinfoExtra := forall_mem_of_all (by decide)
theorem keepsEscapes_c0Extra : KeepsEscapes c0Extra := forall_mem_of_all (by decide)

theorem encodeChar_of_copied (keep : copied extraSet c = true) : encodeChar extraSet c = [c] := by
  rw [encodeChar, if_pos keep]

/-- Text without characters of the set is copied. -/
theorem utf8PercentEncode_of_copied (keep : ∀ c ∈ t, copied extraSet c = true) :
    utf8PercentEncode t extraSet = t := by
  induction t with
  | nil => rfl
  | cons c t ih =>
    rw [List.forall_mem_cons] at keep
    unfold utf8PercentEncode at ih ⊢
    rw [List.flatMap_cons, encodeChar_of_copied keep.1, ih keep.2]
    rfl

theorem utf8PercentEncode_append (t u : Text) :
    utf8PercentEncode (t ++ u) extraSet
      = utf8PercentEncode t extraSet ++ utf8PercentEncode u extraSet := List.flatMap_append

@[simp] theorem utf8PercentEncode_singleton (c : Char) :
    utf8PercentEncode [c] extraSet = encodeChar extraSet c := List.flatMap_singleton _ _

theorem digitChar_mem_escapeChars : ∀ n, n < 16 → (Nat.digitChar n).toUpper ∈ escapeChars := by
  decide

theorem mem_percentEncodeByte {byte : UInt8} {x : Char} (member : x ∈ percentEncodeByte byte) :
    x ∈ escapeChars := by
  unfold percentEncodeByte percentByte at member
  rcases List.mem_cons.mp member with rfl | digits
  · decide
  · rcases List.mem_cons.mp digits with rfl | last
    · apply digitChar_mem_escapeChars
      have := byte.toNat_lt
      omega
    · rw [List.mem_singleton.mp last]
      exact digitChar_mem_escapeChars _ (Nat.mod_lt _ (by decide))

/-- A character is copied, or replaced by escapes. -/
theorem mem_encodeChar {x : Char} (member : x ∈ encodeChar extraSet c) :
    (x = c ∧ copied extraSet c = true) ∨ x ∈ escapeChars := by
  unfold encodeChar at member
  split at member
  · rename_i keep
    exact .inl ⟨List.mem_singleton.mp member, keep⟩
  · obtain ⟨byte, -, inside⟩ := List.mem_flatMap.mp member
    exact .inr (mem_percentEncodeByte inside)

/-- What holds of the copied characters and of escapes holds of every encoded character. -/
theorem forall_mem_encodeChar {P : Char → Prop} (escapes : ∀ x ∈ escapeChars, P x)
    (kept : copied extraSet c = true → P c) : ∀ x ∈ encodeChar extraSet c, P x := by
  intro x member
  rcases mem_encodeChar member with ⟨rfl, keep⟩ | escape
  · exact kept keep
  · exact escapes x escape

theorem forall_mem_utf8PercentEncode {P : Char → Prop} (escapes : ∀ x ∈ escapeChars, P x)
    (kept : ∀ c ∈ t, copied extraSet c = true → P c) :
    ∀ x ∈ utf8PercentEncode t extraSet, P x := by
  intro x member
  obtain ⟨c, inside, encoded⟩ := List.mem_flatMap.mp member
  exact forall_mem_encodeChar escapes (kept c inside) x encoded

/-- Encoded text is copied when it is encoded again. -/
theorem copied_of_mem_encode (keeps : KeepsEscapes extraSet) :
    ∀ x ∈ utf8PercentEncode t extraSet, copied extraSet x = true :=
  forall_mem_utf8PercentEncode keeps fun _ _ keep => keep

theorem encodeChar_ne_nil (c : Char) : encodeChar extraSet c ≠ [] := by
  unfold encodeChar
  split
  · exact List.cons_ne_nil _ _
  · have bytes : String.utf8EncodeChar c ≠ [] := by
      apply List.ne_nil_of_length_pos
      rw [String.length_utf8EncodeChar]
      exact c.utf8Size_pos
    cases encoded : String.utf8EncodeChar c with
    | nil => exact absurd encoded bytes
    | cons b bs => simp [percentEncodeByte, percentByte]

theorem percentDecodeBytes_of_not_mem {bytes : List UInt8} (none : 0x25 ∉ bytes) :
    percentDecodeBytes bytes = bytes := by
  induction bytes using percentDecodeBytes.induct with
  | case1 byte h1 h2 rest escape => simp_all
  | case2 byte h1 h2 rest plain ih =>
    rw [List.mem_cons, not_or] at none
    rw [percentDecodeBytes, if_neg plain, ih none.2]
  | case3 bytes short =>
    rw [percentDecodeBytes]
    exact short

/-- Without `%` there is nothing to decode. -/
theorem percentDecodeString_of_not_mem (none : '%' ∉ t) : percentDecodeString t = .ok t := by
  have bytes : 0x25 ∉ utf8 t := by
    intro member
    obtain ⟨c, inside, encoded⟩ := List.mem_flatMap.mp member
    have percent : c = '%' := Char.toNat_inj.mp (toNat_of_mem_utf8EncodeChar encoded (by decide))
    exact none (percent ▸ inside)
  simp [percentDecodeString, percentDecodeBytes_of_not_mem bytes, toString]

theorem toString_eq_nil {bytes : List UInt8} (empty : toString bytes = .ok []) : bytes = [] := by
  unfold toString at empty
  split at empty
  · rename_i decoded
    cases empty
    exact decodeUtf8_eq_nil decoded
  · cases empty

theorem percentDecodeBytes_ne_nil {bytes : List UInt8} (nonempty : bytes ≠ []) :
    percentDecodeBytes bytes ≠ [] := by
  unfold percentDecodeBytes
  split
  · split <;> exact List.cons_ne_nil _ _
  · exact nonempty

theorem percentDecodeString_ne_nil (nonempty : t ≠ []) : percentDecodeString t ≠ .ok [] :=
  fun empty => percentDecodeBytes_ne_nil (utf8_ne_nil nonempty) (toString_eq_nil empty)

theorem utf8EncodeChar_ascii (ascii : c.toNat < 0x80) :
    String.utf8EncodeChar c = [UInt8.ofNat c.toNat] :=
  forall_ascii (P := fun c => String.utf8EncodeChar c = [UInt8.ofNat c.toNat]) (by decide) ascii

theorem ascii_of_copied (keep : copied extraSet c = true) : c.toNat < 0x80 := by
  simp only [copied, Bool.and_eq_true, decide_eq_true_eq] at keep
  exact keep.1.1

theorem percentDecodeBytes_cons_of_ne {b : UInt8} (other : b ≠ 0x25) (rest : List UInt8) :
    percentDecodeBytes (b :: rest) = b :: percentDecodeBytes rest := by
  match rest with
  | [] => rfl
  | [_] => rfl
  | h1 :: h2 :: rest => rw [percentDecodeBytes, if_neg (by simp [other])]

/-- The byte of an upper-case hexadecimal digit. -/
theorem utf8_digit : ∀ n, n < 16 → ∃ b : UInt8, utf8 [(Nat.digitChar n).toUpper] = [b] ∧
    isHexDigit b = true ∧ (hexValue b).toNat = n ∧ b ≠ 0x25 := by
  intro n small
  interval_cases n <;> exact ⟨_, rfl, by decide, by decide, by decide⟩

theorem percentDecodeBytes_escape (b : UInt8) (rest : List UInt8) :
    percentDecodeBytes (utf8 (percentEncodeByte b) ++ rest) = b :: percentDecodeBytes rest := by
  have bound := b.toNat_lt
  obtain ⟨high, highBytes, highDigit, highValue, -⟩ := utf8_digit (b.toNat / 16) (by omega)
  obtain ⟨low, lowBytes, lowDigit, lowValue, -⟩ := utf8_digit (b.toNat % 16) (by omega)
  have bytes : utf8 (percentEncodeByte b) = [0x25, high, low] := by
    have parts : percentEncodeByte b = ['%'] ++ [(Nat.digitChar (b.toNat / 16)).toUpper]
        ++ [(Nat.digitChar (b.toNat % 16)).toUpper] := rfl
    rw [parts, utf8_append, utf8_append, highBytes, lowBytes]
    rfl
  have value : 16 * hexValue high + hexValue low = b := by
    apply UInt8.toNat_inj.mp
    rw [UInt8.toNat_add, UInt8.toNat_mul, highValue, lowValue]
    have sixteen : (16 : UInt8).toNat = 16 := rfl
    rw [sixteen]
    omega
  rw [bytes, List.cons_append, List.cons_append, List.singleton_append, percentDecodeBytes]
  simp [highDigit, lowDigit, value]

theorem percentDecodeBytes_escapes (bytes rest : List UInt8) :
    percentDecodeBytes (utf8 (bytes.flatMap percentEncodeByte) ++ rest)
      = bytes ++ percentDecodeBytes rest := by
  induction bytes with
  | nil => rfl
  | cons b bytes ih =>
    rw [List.flatMap_cons, utf8_append, List.append_assoc, percentDecodeBytes_escape, ih]
    rfl

end QjsLws.Url
