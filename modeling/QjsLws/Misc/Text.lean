import Mathlib.Data.Nat.Digits.Defs
import Mathlib.Data.List.DropRight
import Mathlib.Tactic.IntervalCases

/-!
# Text and numerals

A well-formed string of the host language is the list of its code points.
-/

namespace QjsLws.Misc

/-- A string, as its code points. -/
abbrev Text := List Char

/-- An exception: its constructor's name and its message. -/
structure JsError where
  name : Text
  message : Text
  deriving DecidableEq, Repr

/-- The UTF-8 encoding of a string. -/
def utf8 (t : Text) : List UInt8 := t.flatMap String.utf8EncodeChar

/-- `toLowerCase` of a string of ASCII characters. -/
def asciiLower (t : Text) : Text := t.map Char.toLower

theorem asciiLower_eq_self {t : Text} (lower : ∀ c ∈ t, c.toLower = c) : asciiLower t = t := by
  unfold asciiLower
  rw [List.map_congr_left lower, List.map_id']

/-- Removes the characters of a class from both ends. -/
def strip (p : Char → Bool) (t : Text) : Text := (t.dropWhile p).rdropWhile p

/-- `String(n)` for a natural number. -/
def decimal (n : Nat) : Text := Nat.toDigits 10 n

/-- `Number(t)` of a numeral. `none` stands for what any other text gives. -/
def number (t : Text) : Option Nat :=
  if t ≠ [] ∧ t.all Char.isDigit then some (Nat.ofDigitChars 10 t 0) else none

theorem isDigit_of_mem_decimal {n : Nat} {c : Char} (member : c ∈ decimal n) : c.isDigit = true :=
  Nat.isDigit_of_mem_toDigits (by decide) (by decide) member

@[simp] theorem number_decimal (n : Nat) : number (decimal n) = some n := by
  have digits : (decimal n).all Char.isDigit := by
    rw [List.all_eq_true]
    exact fun c member => isDigit_of_mem_decimal member
  rw [number, if_pos ⟨Nat.toDigits_ne_nil, digits⟩]
  exact congrArg some Nat.ofDigitChars_ten_toDigits

/-- A fact about the ASCII characters, from a check of their codes. -/
theorem forall_ascii {P : Char → Prop} (check : ∀ n, n < 128 → P (Char.ofNat n)) {c : Char}
    (ascii : c.toNat < 128) : P c := by
  rw [← Char.ofNat_toNat c]
  exact check c.toNat ascii

theorem toLower_of_not_ascii {c : Char} (beyond : ¬c.toNat < 128) : c.toLower = c := by
  refine dif_neg ?_
  rintro ⟨-, le⟩
  exact beyond (Nat.lt_of_le_of_lt (UInt32.le_iff_toNat_le.mp le) (by decide))

theorem toLower_toLower (c : Char) : c.toLower.toLower = c.toLower := by
  by_cases ascii : c.toNat < 128
  · exact forall_ascii (P := fun c => c.toLower.toLower = c.toLower) (by decide) ascii
  · rw [toLower_of_not_ascii ascii, toLower_of_not_ascii ascii]

/-- A fact about the characters of a fixed text, from a check of each. -/
theorem forall_mem_of_all {P : Char → Prop} [DecidablePred P] {t : Text}
    (check : t.all (fun c => decide (P c)) = true) : ∀ c ∈ t, P c := by
  simpa only [List.all_eq_true, decide_eq_true_eq] using check

theorem ascii_of_isAlphanum {c : Char} (alphanum : c.isAlphanum = true) : c.toNat < 128 := by
  have letters : c.isAlpha = (decide (c.val ≥ 'A'.val ∧ c.val ≤ 'Z'.val) ||
    (decide (c.val ≥ 'a'.val) && decide (c.val ≤ 'z'.val))) := rfl
  simp only [Char.isAlphanum, letters, Char.isDigit, Bool.or_eq_true, Bool.and_eq_true, decide_eq_true_eq, UInt32.le_iff_toNat_le, ge_iff_le]
    at alphanum
  have value : c.val.toNat = c.toNat := rfl
  have upper : 'Z'.val.toNat = 90 := rfl
  have lower : 'z'.val.toNat = 122 := rfl
  have digit : '9'.val.toNat = 57 := rfl
  omega

/-- The hexadecimal digits, listed. -/
theorem mem_of_isHexDigit {c : Char} (digit : c.isHexDigit = true) :
    c ∈ "0123456789abcdefABCDEF".toList := by
  have code : c = Char.ofNat c.toNat := (Char.ofNat_toNat c).symm
  have range : (48 ≤ c.toNat ∧ c.toNat ≤ 57) ∨ (97 ≤ c.toNat ∧ c.toNat ≤ 102) ∨
      (65 ≤ c.toNat ∧ c.toNat ≤ 70) := by
    simpa [Char.isHexDigit, Char.isDigit, UInt32.le_iff_toNat_le, or_assoc] using digit
  rw [code]
  rcases range with ⟨low, high⟩ | ⟨low, high⟩ | ⟨low, high⟩ <;> interval_cases c.toNat <;> decide

theorem isHexDigit_of_isDigit {c : Char} (digit : c.isDigit = true) : c.isHexDigit = true := by
  simp [Char.isHexDigit, digit]

/-- `n.toString(16)`. -/
def hex (n : Nat) : Text := Nat.toDigits 16 n

/-- The value of a digit, up to base 16. -/
def digitOf (c : Char) : Nat :=
  if c.isDigit then c.toNat - 0x30 else if c.isLower then c.toNat - 0x57 else c.toNat - 0x37

/-- A digit of the given base. -/
def isRadixDigit (radix : Nat) (c : Char) : Bool := c.isHexDigit && digitOf c < radix

/-- `parseInt(t, radix)` of text that has only digits of the base. -/
def parseInt (radix : Nat) (t : Text) : Nat := t.foldl (fun n c => radix * n + digitOf c) 0

theorem parseInt_decimal (n : Nat) : parseInt 10 (decimal n) = n := by
  have same : parseInt 10 (decimal n) = Nat.ofDigitChars 10 (decimal n) 0 := by
    apply List.foldl_ext
    intro sum c member
    rw [digitOf, if_pos (isDigit_of_mem_decimal member)]
    rfl
  rw [same]
  exact Nat.ofDigitChars_ten_toDigits

theorem digitOf_digitChar {n : Nat} (small : n < 16) : digitOf (Nat.digitChar n) = n := by
  interval_cases n <;> decide

theorem isHexDigit_digitChar {n : Nat} (small : n < 16) : (Nat.digitChar n).isHexDigit = true := by
  interval_cases n <;> decide

theorem parseInt_append_singleton (radix : Nat) (t : Text) (c : Char) :
    parseInt radix (t ++ [c]) = radix * parseInt radix t + digitOf c := by
  rw [parseInt, List.foldl_append]
  rfl

theorem parseInt_hex (n : Nat) : parseInt 16 (hex n) = n := by
  induction n using Nat.strongRecOn with
  | ind n ih =>
    rcases Nat.lt_or_ge n 16 with small | large
    · rw [hex, Nat.toDigits_of_lt_base small, parseInt, List.foldl_cons, List.foldl_nil,
        digitOf_digitChar small]
      omega
    · have shorter : n / 16 < n := Nat.div_lt_self (by omega) (by decide)
      rw [hex, Nat.toDigits_of_base_le (by decide) large, ← hex, parseInt_append_singleton,
        ih _ shorter, digitOf_digitChar (Nat.mod_lt n (by decide))]
      omega

theorem isHexDigit_of_mem_hex {n : Nat} {c : Char} (member : c ∈ hex n) : c.isHexDigit = true := by
  induction n using Nat.strongRecOn with
  | ind n ih =>
    rcases Nat.lt_or_ge n 16 with small | large
    · rw [hex, Nat.toDigits_of_lt_base small, List.mem_singleton] at member
      rw [member]
      exact isHexDigit_digitChar small
    · have shorter : n / 16 < n := Nat.div_lt_self (by omega) (by decide)
      rw [hex, Nat.toDigits_of_base_le (by decide) large, ← hex, List.mem_append,
        List.mem_singleton] at member
      rcases member with earlier | rfl
      · exact ih _ shorter earlier
      · exact isHexDigit_digitChar (Nat.mod_lt n (by decide))

/-- `%XX` with upper-case digits. -/
def percentByte (b : UInt8) : Text :=
  ['%', (Nat.digitChar (b.toNat / 16)).toUpper, (Nat.digitChar (b.toNat % 16)).toUpper]

/-- The characters that `encodeURIComponent` keeps. -/
def isURIUnreserved (c : Char) : Bool := c.isAlphanum || "-_.!~*'()".toList.contains c

/-- `encodeURIComponent` of a well-formed string. -/
def encodeURIComponent (t : Text) : Text :=
  t.flatMap fun c =>
    if isURIUnreserved c then [c] else (String.utf8EncodeChar c).flatMap percentByte

/-- `n | 0`. -/
def toInt32 (n : Int) : Int := (n + 2 ^ 31) % 2 ^ 32 - 2 ^ 31

/-- `parts.join(separator)`. -/
def join (separator : Text) : List Text → Text
  | [] => []
  | [part] => part
  | part :: rest => part ++ separator ++ join separator rest

theorem mem_join {separator : Text} {parts : List Text} {c : Char}
    (member : c ∈ join separator parts) : (∃ part ∈ parts, c ∈ part) ∨ c ∈ separator := by
  induction parts with
  | nil => cases member
  | cons part rest ih =>
    cases rest with
    | nil => exact .inl ⟨part, List.mem_cons_self, member⟩
    | cons next rest =>
      rw [join, List.mem_append, List.mem_append] at member
      · rcases member with (here | between) | later
        · exact .inl ⟨part, List.mem_cons_self, here⟩
        · exact .inr between
        · obtain ⟨p, inside, found⟩ | between := ih later
          · exact .inl ⟨p, List.mem_cons_of_mem _ inside, found⟩
          · exact .inr between
      · simp

/-- `t.split(separator)` for a separator of one character. -/
def split (separator : Char) : Text → List Text
  | [] => [[]]
  | c :: rest =>
    match split separator rest with
    | part :: parts => if c = separator then [] :: part :: parts else (c :: part) :: parts
    | [] => []

theorem split_of_not_mem {separator : Char} {t : Text} (none : separator ∉ t) :
    split separator t = [t] := by
  induction t with
  | nil => rfl
  | cons c t ih =>
    rw [List.mem_cons, not_or] at none
    rw [split, ih none.2]
    simp [Ne.symm none.1]

theorem split_ne_nil (separator : Char) (t : Text) : split separator t ≠ [] := by
  induction t with
  | nil => simp [split]
  | cons c t ih =>
    rw [split]
    cases parts : split separator t with
    | nil => exact absurd parts ih
    | cons part rest =>
      dsimp only
      split <;> simp

/-- A text is its parts and the separators between them. -/
theorem mem_split {separator c : Char} {t : Text} (member : c ∈ t) :
    c = separator ∨ ∃ part ∈ split separator t, c ∈ part := by
  induction t with
  | nil => cases member
  | cons d t ih =>
    rw [split]
    cases parts : split separator t with
    | nil => exact absurd parts (split_ne_nil separator t)
    | cons part rest =>
      rw [parts] at ih
      by_cases same : d = separator
      · rcases List.mem_cons.mp member with rfl | later
        · exact .inl same
        · rcases ih later with eq | ⟨p, inside, found⟩
          · exact .inl eq
          · exact .inr ⟨p, by simp [same, inside], found⟩
      · rcases List.mem_cons.mp member with rfl | later
        · exact .inr ⟨c :: part, by simp [same], List.mem_cons_self⟩
        · rcases ih later with eq | ⟨p, inside, found⟩
          · exact .inl eq
          · rcases List.mem_cons.mp inside with rfl | other
            · exact .inr ⟨d :: p, by simp [same], List.mem_cons_of_mem _ found⟩
            · exact .inr ⟨p, by simp [same, other], found⟩

theorem split_append_cons {separator : Char} {t : Text} (absent : separator ∉ t) (u : Text) :
    split separator (t ++ separator :: u) = t :: split separator u := by
  induction t with
  | nil =>
    rw [List.nil_append, split]
    cases parts : split separator u with
    | nil => exact absurd parts (split_ne_nil separator u)
    | cons part rest => simp
  | cons c t ih =>
    rw [List.mem_cons, not_or] at absent
    rw [List.cons_append, split, ih absent.2]
    simp [Ne.symm absent.1]

/-- Parts without the separator are found again in what they are joined to. -/
theorem split_join {separator : Char} {parts : List Text} (nonempty : parts ≠ [])
    (absent : ∀ part ∈ parts, separator ∉ part) :
    split separator (join [separator] parts) = parts := by
  induction parts with
  | nil => exact absurd rfl nonempty
  | cons part rest ih =>
    have here := absent part List.mem_cons_self
    cases rest with
    | nil => exact split_of_not_mem here
    | cons next rest =>
      have later := ih (by simp) fun p member => absent p (List.mem_cons_of_mem _ member)
      rw [join, List.append_assoc, List.singleton_append, split_append_cons here, later]
      simp

/-- The last part is what follows the last separator. -/
theorem split_append {separator : Char} (t : Text) {u : Text} (none : separator ∉ u) :
    ∃ part parts, split separator (t ++ separator :: u) = part :: parts ++ [u] := by
  induction t with
  | nil => exact ⟨[], [], by simp [split, split_of_not_mem none]⟩
  | cons c t ih =>
    obtain ⟨part, parts, eq⟩ := ih
    rw [List.cons_append, split, eq]
    by_cases same : c = separator
    · exact ⟨[], part :: parts, by simp [same]⟩
    · exact ⟨c :: part, parts, by simp [same]⟩

theorem strip_eq_self {p : Char → Bool} {t : Text} (none : ∀ c ∈ t, p c = false) :
    strip p t = t := by
  have left : t.dropWhile p = t := by
    rw [List.dropWhile_eq_self_iff]
    intro pos
    simp [none _ (List.getElem_mem pos)]
  rw [strip, left, List.rdropWhile_eq_self_iff]
  intro nonempty
  simp [none _ (List.getLast_mem nonempty)]

theorem strip_strip (p : Char → Bool) (t : Text) : strip p (strip p t) = strip p t := by
  have front : (strip p t).dropWhile p = strip p t := by
    rw [List.dropWhile_eq_self_iff]
    intro nonempty
    obtain ⟨rest, same⟩ : strip p t <+: t.dropWhile p := List.rdropWhile_prefix p _
    have longer : 0 < (t.dropWhile p).length := by
      rw [← same, List.length_append]
      omega
    have head := List.dropWhile_get_zero_not p t longer
    simpa [← same, List.getElem_append_left nonempty] using head
  rw [strip, front, strip, List.rdropWhile_idempotent]

theorem isInfix_strip (p : Char → Bool) (t : Text) : strip p t <:+: t :=
  (List.rdropWhile_prefix p _).isInfix.trans (List.dropWhile_suffix p).isInfix

@[simp] theorem utf8_nil : utf8 [] = [] := rfl

theorem utf8_append (t u : Text) : utf8 (t ++ u) = utf8 t ++ utf8 u := List.flatMap_append

theorem utf8_ne_nil {t : Text} (nonempty : t ≠ []) : utf8 t ≠ [] := by
  cases t with
  | nil => exact absurd rfl nonempty
  | cons c rest =>
    have head : String.utf8EncodeChar c ≠ [] := by
      apply List.ne_nil_of_length_pos
      rw [String.length_utf8EncodeChar]
      exact c.utf8Size_pos
    simp [utf8, head]

end QjsLws.Misc
