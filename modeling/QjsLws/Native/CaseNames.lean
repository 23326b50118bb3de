import QjsLws.Misc.Access

/-!
# Names in another case

`camelize` and `decamelize` of `lws.c`, with the `ctype.h` functions of the C locale, and
`lwsjs_callback_find` of `lws-protocol.c`. The table `callback_names` is a parameter.
-/

namespace QjsLws.Native

open QjsLws.Misc

/-- `islower`. -/
def islower (b : UInt8) : Bool := 97 ≤ b && b ≤ 122

/-- `isupper`. -/
def isupper (b : UInt8) : Bool := 65 ≤ b && b ≤ 90

/-- `toupper`. -/
def toupper (b : UInt8) : UInt8 := if islower b then b - 32 else b

/-- `tolower`. -/
def tolower (b : UInt8) : UInt8 := if isupper b then b + 32 else b

/-- `'_'`. -/
def underscore : UInt8 := 95

/-- The loop of `camelize`, and the terminator behind it: the destination and the index that is returned. -/
def camelizeLoop (src : CString) (dlen : Nat) (dst : List UInt8) (i j : Nat) :
    Except Fault (List UInt8 × Nat) := do
  let c ← readAt src.memory i
  if _ : c ≠ 0 ∧ j + 1 < dlen then
    if c = underscore then
      let d ← readAt src.memory (i + 1)
      let dst ← writeAt dst j (toupper d)
      camelizeLoop src dlen dst (i + 2) (j + 1)
    else
      let dst ← writeAt dst j (tolower c)
      camelizeLoop src dlen dst (i + 1) (j + 1)
  else
    let dst ← writeAt dst j 0
    return (dst, j)
termination_by dlen - j

/-- `camelize`; `dlen` is the length of the destination. -/
def camelize (dst : List UInt8) (src : CString) : Except Fault (List UInt8 × Nat) :=
  camelizeLoop src dst.length dst 0 0

/-- Whether `decamelize` puts an underscore before the byte at `i`. -/
def atHump (src : CString) (i : Nat) (c : UInt8) : Except Fault Bool :=
  if i > 0 then do
    let before ← readAt src.memory (i - 1)
    return islower before && isupper c
  else return false

/-- The loop of `decamelize`, and the terminator behind it. -/
def decamelizeLoop (src : CString) (dlen : Nat) (dst : List UInt8) (i j : Nat) :
    Except Fault (List UInt8 × Nat) := do
  let c ← readAt src.memory i
  if _ : c ≠ 0 ∧ j + 1 < dlen then
    if ← atHump src i c then
      let dst ← writeAt dst j underscore
      let dst ← writeAt dst (j + 1) (toupper c)
      decamelizeLoop src dlen dst (i + 1) (j + 2)
    else
      let dst ← writeAt dst j (toupper c)
      decamelizeLoop src dlen dst (i + 1) (j + 1)
  else
    let dst ← writeAt dst j 0
    return (dst, j)
termination_by dlen - j

/-- `decamelize`; `dlen` is the length of the destination. -/
def decamelize (dst : List UInt8) (src : CString) : Except Fault (List UInt8 × Nat) :=
  decamelizeLoop src dst.length dst 0 0

/-- `lwsjs_callback_find`; `buf` is the buffer of 128 bytes, before anything is written to it. -/
def lwsjsCallbackFind (callbackNames : List (Option CString)) (buf : List UInt8) (name : CString) :
    Except Fault Int := do
  let (buf, _) ← decamelize buf name
  match callbackNames.findIdx? (· = some (CString.upTo buf)) with
  | some i => return i
  | none => return -1

/-! ## What is safe -/

/-- The function stays in its bounds, terminates the destination and returns the length written. -/
def InBounds (dst : List UInt8) (result : Except Fault (List UInt8 × Nat)) : Prop :=
  ∃ written length, result = .ok (written, length) ∧ written.length = dst.length ∧
    written[length]? = some 0 ∧ (CString.upTo written).bytes.length = length

/-- How many bytes `camelize` makes of a name: an underscore goes with the byte behind it. -/
def camelLength : List UInt8 → Nat
  | [] => 0
  | [_] => 1
  | b :: c :: rest => if b = underscore then camelLength rest + 1 else camelLength (c :: rest) + 1

/-- The name ends in an odd number of underscores. -/
def Dangling (name : List UInt8) : Prop :=
  (name.reverse.takeWhile (· = underscore)).length % 2 = 1

instance : DecidablePred Dangling := fun _ => inferInstanceAs (Decidable (_ = _))

/-- The number of upper case letters that follow a lower case one. -/
def humps : List UInt8 → Nat
  | b :: c :: rest => humps (c :: rest) + if islower b && isupper c then 1 else 0
  | _ => 0

/-- The hump whose letter takes the last of `dlen` bytes, with all of the humps before it. -/
def FillsUp (name : List UInt8) (dlen : Nat) : Prop :=
  ∃ before b c rest, name = before ++ b :: c :: rest ∧ islower b = true ∧ isupper c = true ∧
    before.length + 1 + humps (before ++ [b]) + 2 = dlen

end QjsLws.Native
