import QjsLws.Misc.Utf8Replace

/-!
# `lossy_utf8_decode`

The loop of `lossy_utf8_decode` in `lws.c`, as it goes over the bytes and writes what
`unicode_to_utf8` makes of each character. That function and `UTF8_CHAR_LEN_MAX` come from the engine and
are parameters.
-/

namespace QjsLws.Native

open QjsLws.Misc

/-- The variables of the loop; `out` is what was written, `out_len` bytes. -/
structure LossyState where
  out : List UInt8
  i : Nat
  seen : Nat
  needed : Nat
  cp : Nat
  lower : Nat
  upper : Nat
  deriving DecidableEq, Repr

/-- The variables before the loop. -/
def LossyState.start : LossyState := ⟨[], 0, 0, 0, 0, 0x80, 0xbf⟩

variable (unicodeToUtf8 : Nat → List UInt8)

namespace LossyState

/-- `out_len += unicode_to_utf8(out + out_len, c)`. -/
def write (c : Nat) (s : LossyState) : LossyState := { s with out := s.out ++ unicodeToUtf8 c }

/-- The round for a byte where no character has begun. -/
def lead (b : Nat) (s : LossyState) : LossyState :=
  if b < 0x80 then { s.write unicodeToUtf8 b with i := s.i + 1 }
  else if 0xc2 ≤ b ∧ b ≤ 0xdf then
    { s with needed := 1, cp := b &&& 0x1f, seen := 0, i := s.i + 1 }
  else if 0xe0 ≤ b ∧ b ≤ 0xef then
    { s with
      lower := if b = 0xe0 then 0xa0 else s.lower
      upper := if b = 0xed then 0x9f else s.upper
      needed := 2
      cp := b &&& 0x0f
      seen := 0
      i := s.i + 1 }
  else if 0xf0 ≤ b ∧ b ≤ 0xf4 then
    { s with
      lower := if b = 0xf0 then 0x90 else s.lower
      upper := if b = 0xf4 then 0x8f else s.upper
      needed := 3
      cp := b &&& 0x07
      seen := 0
      i := s.i + 1 }
  else { s.write unicodeToUtf8 0xfffd with i := s.i + 1 }

/-- The round for a byte. One that does not continue the character is not consumed. -/
def step (b : Nat) (s : LossyState) : LossyState :=
  if s.needed = 0 then s.lead unicodeToUtf8 b
  else if b < s.lower ∨ s.upper < b then
    { s.write unicodeToUtf8 0xfffd with needed := 0, seen := 0, cp := 0, lower := 0x80, upper := 0xbf }
  else
    let s := { s with
      lower := 0x80
      upper := 0xbf
      cp := (s.cp <<< 6 ||| b &&& 0x3f) % 2 ^ 32
      seen := s.seen + 1
      i := s.i + 1 }
    if s.seen = s.needed then { s.write unicodeToUtf8 s.cp with needed := 0, seen := 0, cp := 0 }
    else s

end LossyState

/-- The loop, for so many rounds; `none` where it goes on. -/
def lossyLoop (p : List UInt8) : Nat → LossyState → Option LossyState
  | 0, _ => none
  | rounds + 1, s =>
    match p[s.i]? with
    | none => some s
    | some b => lossyLoop p rounds (s.step unicodeToUtf8 b.toNat)

/-- `lossy_utf8_decode`: the bytes the string is made of. -/
def lossyUtf8Decode (rounds : Nat) (p : List UInt8) : Option (List UInt8) :=
  if p = [] then some []
  else
    (lossyLoop unicodeToUtf8 p rounds .start).map fun s =>
      if s.needed = 0 then s.out else (s.write unicodeToUtf8 0xfffd).out

end QjsLws.Native
