import QjsLws.Misc.Utf8

/-!
# Decoding with replacement

The text that bytes decode to when every maximal ill-formed subpart is replaced by one `U+FFFD`. A
subpart is maximal that begins a character but goes on in no way that the input does, or is one byte.
-/

namespace QjsLws.Misc

/-- `U+FFFD`. -/
def replacement : Char := Char.ofNat 0xfffd

/-- The bytes begin a character. -/
def Viable (bytes : List UInt8) : Prop := ∃ c, bytes <+: String.utf8EncodeChar c

/-- The maximal subpart at the front of the input `sub ++ rest`, which begins with no character. -/
structure MaximalSubpart (sub rest : List UInt8) : Prop where
  nonempty : sub ≠ []
  unconvertible : ∀ c, ¬String.utf8EncodeChar c <+: sub ++ rest
  initial : Viable sub ∨ sub.length = 1
  longest : ∀ more, more <+: sub ++ rest → sub.length < more.length → ¬Viable more

/-- What bytes decode to. -/
inductive Decodes : List UInt8 → Text → Prop where
  | nil : Decodes [] []
  | char {rest : List UInt8} {t : Text} (c : Char) :
    Decodes rest t → Decodes (String.utf8EncodeChar c ++ rest) (c :: t)
  | subpart {sub rest : List UInt8} {t : Text} :
    MaximalSubpart sub rest → Decodes rest t → Decodes (sub ++ rest) (replacement :: t)

variable {sub sub' rest rest' bytes : List UInt8} {t t' : Text} {c d : Char}

/-! ## Characters -/

theorem utf8EncodeChar_ne_nil (c : Char) : String.utf8EncodeChar c ≠ [] := by
  have size := String.length_utf8EncodeChar c
  have positive := c.utf8Size_pos
  intro empty
  rw [empty, List.length_nil] at size
  omega

/-- No character is the beginning of another. -/
theorem eq_of_encode_append (same : String.utf8EncodeChar c ++ rest = String.utf8EncodeChar d ++ rest') :
    c = d ∧ rest = rest' := by
  have fronts := congrArg decodeChar same
  rw [decodeChar_encode, decodeChar_encode] at fronts
  obtain rfl := Option.some.inj fronts
  exact ⟨rfl, List.append_cancel_left same⟩

theorem Viable.of_prefix (viable : Viable bytes) (isPrefix : sub <+: bytes) : Viable sub := by
  obtain ⟨c, begins⟩ := viable
  exact ⟨c, isPrefix.trans begins⟩

theorem toNat_ofNat {n : Nat} (scalar : n < 0xd800 ∨ 0xdfff < n ∧ n < 0x110000) :
    (Char.ofNat n).toNat = n := by
  have valid : n.isValidChar := scalar
  rw [Char.ofNat, dif_pos valid]
  rfl

section Encode

variable {b b₁ b₂ b₃ b₄ : UInt8}

theorem encode_one (small : b.toNat < 0x80) :
    String.utf8EncodeChar (Char.ofNat b.toNat) = [b] := by
  have value : (Char.ofNat b.toNat).val.toNat = b.toNat := toNat_ofNat (.inl (by omega))
  unfold String.utf8EncodeChar
  simp only [value]
  rw [if_pos (by omega)]
  simp

theorem encode_two (low : 0xc2 ≤ b₁.toNat) (high : b₁.toNat ≤ 0xdf) (low₂ : 0x80 ≤ b₂.toNat)
    (high₂ : b₂.toNat ≤ 0xbf) :
    String.utf8EncodeChar (Char.ofNat (b₁.toNat % 0x20 * 0x40 + b₂.toNat % 0x40)) = [b₁, b₂] := by
  have value : (Char.ofNat (b₁.toNat % 0x20 * 0x40 + b₂.toNat % 0x40)).val.toNat
      = b₁.toNat % 0x20 * 0x40 + b₂.toNat % 0x40 := toNat_ofNat (.inl (by omega))
  unfold String.utf8EncodeChar
  simp only [value]
  rw [if_neg (by omega), if_pos (by omega)]
  simp only [List.cons.injEq, and_true, ← UInt8.toNat_inj, UInt8.toNat_ofNat']
  omega

theorem encode_three (low : 0xe0 ≤ b₁.toNat) (high : b₁.toNat ≤ 0xef)
    (low₂ : (if b₁.toNat = 0xe0 then 0xa0 else 0x80) ≤ b₂.toNat)
    (high₂ : b₂.toNat ≤ if b₁.toNat = 0xed then 0x9f else 0xbf) (low₃ : 0x80 ≤ b₃.toNat)
    (high₃ : b₃.toNat ≤ 0xbf) {n : Nat}
    (value : n = (b₁.toNat % 0x10 * 0x40 + b₂.toNat % 0x40) * 0x40 + b₃.toNat % 0x40) :
    (Char.ofNat n).toNat = n ∧ String.utf8EncodeChar (Char.ofNat n) = [b₁, b₂, b₃] := by
  have low₂' : 0x80 ≤ b₂.toNat := by split at low₂ <;> omega
  have high₂' : b₂.toNat ≤ 0xbf := by split at high₂ <;> omega
  have large : 0x800 ≤ n := by split at low₂ <;> omega
  have scalar : n < 0xd800 ∨ 0xdfff < n ∧ n < 0x110000 := by split at high₂ <;> omega
  have self := toNat_ofNat scalar
  refine ⟨self, ?_⟩
  have number : (Char.ofNat n).val.toNat = n := self
  unfold String.utf8EncodeChar
  simp only [number]
  rw [if_neg (by omega), if_neg (by omega), if_pos (by omega)]
  simp only [List.cons.injEq, and_true, ← UInt8.toNat_inj, UInt8.toNat_ofNat']
  omega

theorem encode_four (low : 0xf0 ≤ b₁.toNat) (high : b₁.toNat ≤ 0xf4)
    (low₂ : (if b₁.toNat = 0xf0 then 0x90 else 0x80) ≤ b₂.toNat)
    (high₂ : b₂.toNat ≤ if b₁.toNat = 0xf4 then 0x8f else 0xbf) (low₃ : 0x80 ≤ b₃.toNat)
    (high₃ : b₃.toNat ≤ 0xbf) (low₄ : 0x80 ≤ b₄.toNat) (high₄ : b₄.toNat ≤ 0xbf) {n : Nat}
    (value : n = ((b₁.toNat % 8 * 0x40 + b₂.toNat % 0x40) * 0x40 + b₃.toNat % 0x40) * 0x40
      + b₄.toNat % 0x40) :
    (Char.ofNat n).toNat = n ∧ String.utf8EncodeChar (Char.ofNat n) = [b₁, b₂, b₃, b₄] := by
  have low₂' : 0x80 ≤ b₂.toNat := by split at low₂ <;> omega
  have high₂' : b₂.toNat ≤ 0xbf := by split at high₂ <;> omega
  have large : 0x10000 ≤ n := by split at low₂ <;> omega
  have scalar : n < 0xd800 ∨ 0xdfff < n ∧ n < 0x110000 := by split at high₂ <;> omega
  have self := toNat_ofNat scalar
  refine ⟨self, ?_⟩
  have number : (Char.ofNat n).val.toNat = n := self
  unfold String.utf8EncodeChar
  simp only [number]
  rw [if_neg (by omega), if_neg (by omega), if_neg (by omega)]
  simp only [List.cons.injEq, and_true, ← UInt8.toNat_inj, UInt8.toNat_ofNat']
  omega

end Encode

/-! ## One text -/

/-- An input has one maximal subpart at most. -/
theorem MaximalSubpart.unique (first : MaximalSubpart sub rest) (second : MaximalSubpart sub' rest')
    (same : sub ++ rest = sub' ++ rest') : sub = sub' ∧ rest = rest' := by
  have shorter : ∀ {sub rest sub' rest'}, MaximalSubpart sub rest → MaximalSubpart sub' rest' →
      sub ++ rest = sub' ++ rest' → ¬sub.length < sub'.length := by
    intro sub rest sub' rest' first second same less
    have absent := first.longest sub' (same ▸ List.prefix_append ..) less
    have positive := List.length_pos_iff.mpr first.nonempty
    have single := second.initial.resolve_left absent
    omega
  have lengths : sub.length = sub'.length := Nat.le_antisymm
    (Nat.le_of_not_lt (shorter second first same.symm)) (Nat.le_of_not_lt (shorter first second same))
  exact List.append_inj same lengths

theorem Decodes.unique (decodes : Decodes bytes t) : ∀ {t'}, Decodes bytes t' → t = t' := by
  induction decodes with
  | nil =>
    intro t' other
    generalize empty : ([] : List UInt8) = bytes at other
    cases other with
    | nil => rfl
    | char c _ => exact absurd (List.append_eq_nil_iff.mp empty.symm).1 (utf8EncodeChar_ne_nil c)
    | subpart maximal _ => exact absurd (List.append_eq_nil_iff.mp empty.symm).1 maximal.nonempty
  | @char rest t c _ ih =>
    intro t' other
    generalize same : String.utf8EncodeChar c ++ rest = bytes at other
    cases other with
    | nil => exact absurd (List.append_eq_nil_iff.mp same).1 (utf8EncodeChar_ne_nil c)
    | char d other =>
      obtain ⟨rfl, rfl⟩ := eq_of_encode_append same
      rw [ih other]
    | subpart maximal _ => exact absurd ⟨rest, same⟩ (maximal.unconvertible c)
  | @subpart sub rest t maximal _ ih =>
    intro t' other
    generalize same : sub ++ rest = bytes at other
    cases other with
    | nil => exact absurd (List.append_eq_nil_iff.mp same).1 maximal.nonempty
    | char d _ => exact absurd ⟨_, same.symm⟩ (maximal.unconvertible d)
    | subpart maximal' other =>
      obtain ⟨rfl, rfl⟩ := maximal.unique maximal' same
      rw [ih other]

/-- Every character takes a byte of the input. -/
theorem Decodes.length_le (decodes : Decodes bytes t) : t.length ≤ bytes.length := by
  induction decodes with
  | nil => exact Nat.le_refl 0
  | char c _ ih =>
    have positive := List.length_pos_iff.mpr (utf8EncodeChar_ne_nil c)
    rw [List.length_cons, List.length_append]
    omega
  | subpart maximal _ ih =>
    have positive := List.length_pos_iff.mpr maximal.nonempty
    rw [List.length_cons, List.length_append]
    omega

theorem length_utf8_le (t : Text) : (utf8 t).length ≤ 4 * t.length := by
  induction t with
  | nil => exact Nat.le_refl 0
  | cons c t ih =>
    have size : (utf8 (c :: t)).length = c.utf8Size + (utf8 t).length := by
      rw [← String.length_utf8EncodeChar, ← List.length_append]
      rfl
    have most := c.utf8Size_le_four
    rw [size, List.length_cons]
    omega

end QjsLws.Misc
