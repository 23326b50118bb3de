import Mathlib.Algebra.Order.Monoid.WithTop
import Mathlib.Data.Int.Order.Basic
import QjsLws.Misc.Text

/-!
# Texts as numbers

`Number(t)` for any text: the exact value that the text writes, and whether it is still positive
when it is rounded to a double.
-/

namespace QjsLws.Misc

/-- The integers with a top, for a number that no integer reaches; an order that can be computed. -/
instance extendedOrder : Preorder (WithTop ℤ) := @WithTop.instPreorder ℤ Int.instLinearOrder.toPreorder

/-- The value that a text writes, before it is rounded. -/
inductive NumberValue where
  | nan
  | infinity (negative : Bool)
  | finite (negative : Bool) (mantissa : Nat) (exponent : Int)
  deriving DecidableEq, Repr

/-- White space and line ends. -/
def isStrWhiteSpace (c : Char) : Bool :=
  (0x9 ≤ c.toNat && c.toNat ≤ 0xd) || (0x2000 ≤ c.toNat && c.toNat ≤ 0x200a) ||
    c.toNat ∈ [0x20, 0xa0, 0x1680, 0x2028, 0x2029, 0x202f, 0x205f, 0x3000, 0xfeff]

/-- The radix that a letter after a leading zero announces. -/
def radixOf (c : Char) : Option Nat :=
  if c ∈ ['x', 'X'] then some 16
  else if c ∈ ['o', 'O'] then some 8
  else if c ∈ ['b', 'B'] then some 2
  else none

/-- The digits of an integer in a radix. -/
def readInteger (radix : Nat) (digits : Text) : NumberValue :=
  if digits ≠ [] ∧ digits.all (isRadixDigit radix) then .finite false (parseInt radix digits) 0
  else .nan

/-- The exponent of a decimal literal. -/
def readExponent : Text → Option Int
  | [] => some 0
  | _ :: '-' :: digits => (number digits).map fun n => -(n : Int)
  | _ :: '+' :: digits => (number digits).map fun n => (n : Int)
  | _ :: digits => (number digits).map fun n => (n : Int)

/-- A letter that starts an exponent. -/
def isExponentSign (c : Char) : Bool := c = 'e' || c = 'E'

/-- A decimal literal after its sign. -/
def readDecimal (negative : Bool) (t : Text) : NumberValue :=
  if t = "Infinity".toList then .infinity negative
  else
    let mantissa := t.takeWhile fun c => !isExponentSign c
    let whole := mantissa.takeWhile (· ≠ '.')
    let fraction := (mantissa.dropWhile (· ≠ '.')).tail
    match number (whole ++ fraction), readExponent (t.dropWhile fun c => !isExponentSign c) with
    | some m, some e => .finite negative m (e - fraction.length)
    | _, _ => .nan

/-- `Number(t)`, not rounded. -/
def readNumber (t : Text) : NumberValue :=
  match strip isStrWhiteSpace t with
  | [] => .finite false 0 0
  | '-' :: rest => readDecimal true rest
  | '+' :: rest => readDecimal false rest
  | '0' :: c :: rest =>
    match radixOf c with
    | some radix => readInteger radix rest
    | none => readDecimal false ('0' :: c :: rest)
  | rest => readDecimal false rest

/-- Whether the double is above zero. Up to half of the smallest double rounds to zero. -/
def NumberValue.isPositive : NumberValue → Bool
  | .nan => false
  | .infinity negative => !negative
  | .finite negative mantissa exponent =>
    !negative &&
      if 0 ≤ exponent then decide (0 < mantissa)
      else decide (10 ^ exponent.natAbs < mantissa * 2 ^ 1075)

/-- The integer nearest to `p / q`, and the even one of two. -/
def nearest (p q : Nat) : Nat :=
  let r := p / q
  if q < 2 * (p % q) ∨ q = 2 * (p % q) ∧ r % 2 = 1 then r + 1 else r

/-- The integer part of the double nearest to `p / q`, which has 53 bits from its highest one on. -/
def doubleFloor (p q : Nat) : Nat :=
  let whole := p / q
  let top := whole.log2
  if whole = 0 then nearest (p * 2 ^ 53) q / 2 ^ 53
  else if top ≤ 52 then nearest (p * 2 ^ (52 - top)) q / 2 ^ (52 - top)
  else nearest p (q * 2 ^ (top - 52)) * 2 ^ (top - 52)

/-- `JS_ToInt64` of the double: its integer part, modulo 2 to the 64, and 0 for one that is not finite. -/
def NumberValue.toInt64 : NumberValue → Int
  | .nan | .infinity _ => 0
  | .finite negative mantissa exponent =>
    let whole := doubleFloor (mantissa * 10 ^ exponent.toNat) (10 ^ (-exponent).toNat)
    if 1024 ≤ whole.log2 then 0
    else ((if negative then -(whole : Int) else whole) + 2 ^ 63) % 2 ^ 64 - 2 ^ 63

theorem all_isDigit_of_number {t : Text} {n : Nat} (read : number t = some n) :
    t ≠ [] ∧ ∀ c ∈ t, c.isDigit = true := by
  rw [number] at read
  split at read
  · rename_i digits
    exact ⟨digits.1, List.all_eq_true.mp digits.2⟩
  · cases read

/-- A digit is not white space and starts no exponent, and no fraction. -/
theorem digit_cases {c : Char} (digit : c.isDigit = true) :
    isStrWhiteSpace c = false ∧ isExponentSign c = false ∧ c ≠ '.' ∧ c ≠ '-' ∧ c ≠ '+' ∧
      radixOf c = none ∧ c ≠ 'I' := by
  have check : ∀ c ∈ "0123456789abcdefABCDEF".toList, c.isDigit = true →
      isStrWhiteSpace c = false ∧ isExponentSign c = false ∧ c ≠ '.' ∧ c ≠ '-' ∧ c ≠ '+' ∧
        radixOf c = none ∧ c ≠ 'I' := forall_mem_of_all (by decide)
  exact check c (mem_of_isHexDigit (isHexDigit_of_isDigit digit)) digit

/-- A text of digits is the number it writes. -/
theorem readNumber_of_number {t : Text} {n : Nat} (read : number t = some n) :
    readNumber t = .finite false n 0 := by
  obtain ⟨nonempty, digits⟩ := all_isDigit_of_number read
  have whole : strip isStrWhiteSpace t = t := by
    have front : t.dropWhile isStrWhiteSpace = t := by
      rw [List.dropWhile_eq_self_iff]
      intro inside
      simp [(digit_cases (digits _ (List.getElem_mem inside))).1]
    rw [strip, front, List.rdropWhile_eq_self_iff]
    intro inside
    simp [(digit_cases (digits _ (List.getLast_mem inside))).1]
  have decimal : readDecimal false t = .finite false n 0 := by
    have word : t ≠ "Infinity".toList := by
      rintro rfl
      exact absurd (digits 'I' (by decide)) (by decide)
    have noSign : t.takeWhile (fun c => !isExponentSign c) = t := by
      rw [List.takeWhile_eq_self_iff]
      intro c member
      simp [(digit_cases (digits c member)).2.1]
    have noPoint : t.takeWhile (· ≠ '.') = t := by
      rw [List.takeWhile_eq_self_iff]
      intro c member
      simpa using (digit_cases (digits c member)).2.2.1
    have rest {p : Char → Bool} (all : t.takeWhile p = t) : t.dropWhile p = [] := by
      rw [List.dropWhile_eq_nil_iff]
      exact List.takeWhile_eq_self_iff.mp all
    rw [readDecimal, if_neg word]
    simp only [noSign, noPoint, rest noSign, rest noPoint, List.tail_nil, List.append_nil, read,
      readExponent]
    rfl
  rw [readNumber, whole]
  split
  · exact absurd rfl nonempty
  · exact absurd rfl (digit_cases (digits '-' (by simp))).2.2.2.1
  · exact absurd rfl (digit_cases (digits '+' (by simp))).2.2.2.2.1
  · rename_i c rest
    rw [(digit_cases (digits c (by simp))).2.2.2.2.2.1]
    exact decimal
  · exact decimal

end QjsLws.Misc
