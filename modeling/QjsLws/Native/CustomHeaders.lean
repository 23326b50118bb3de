import QjsLws.Misc.Access

/-!
# Custom headers

`custom_headers_callback` of `lws-socket.c` with `findb_charset` of `lws.h`. The block is the `nlen` bytes
behind `name`, and a read behind them is a fault; `lws_hdr_custom_copy` is a parameter. The calls of
`set_property` are returned in order.
-/

namespace QjsLws.Native

open QjsLws.Misc

/-- A call of `set_property`: a name and a value. -/
abbrev Property := List UInt8 × List UInt8

/-- `": "`. -/
def separators : List UInt8 := [58, 32]

/-- `"\r\n"`. -/
def lineEnds : List UInt8 := [13, 10]

/-- The loop of `findb_charset` on the `len` bytes from `start`. -/
def findbLoop (block set : List UInt8) (start len i : Nat) : Except Fault Nat :=
  if i < len then
    match readAt block (start + i) with
    | .error fault => .error fault
    | .ok b => if b ∈ set then .ok i else findbLoop block set start len (i + 1)
  else .ok i
termination_by len - i

/-- `findb_charset`. -/
def findbCharset (block : List UInt8) (start len : Nat) (set : List UInt8) : Except Fault Nat :=
  findbLoop block set start len 0

/-- `while(name[k] == ':' || name[k] == ' ') ++k`, and the same at the end of a line. -/
def skipCharset (block set : List UInt8) (k : Nat) : Except Fault Nat :=
  match _ : readAt block k with
  | .error fault => .error fault
  | .ok b => if b ∈ set then skipCharset block set (k + 1) else .ok k
termination_by block.length - k
decreasing_by
  rename_i read _
  have inside := (List.getElem?_eq_some_iff.mp (readAt_eq_ok.mp read)).1
  omega

/-- The bytes that `JS_NewAtomLen` or `JS_NewStringLen` copies. -/
def copyBytes (block : List UInt8) (start : Nat) : Nat → Except Fault (List UInt8)
  | 0 => .ok []
  | len + 1 => do
    let b ← readAt block start
    let rest ← copyBytes block (start + 1) len
    return b :: rest

/-! ## Progress -/

section Progress

variable {block set : List UInt8} {start len i j k e : Nat} {b : UInt8}

theorem lt_length_of_read (read : readAt block k = .ok b) : k < block.length :=
  (List.getElem?_eq_some_iff.mp (readAt_eq_ok.mp read)).1

theorem findbLoop_member (found : findbLoop block set start len i = .ok j) (inside : j < len) :
    ∃ b ∈ set, readAt block (start + j) = .ok b := by
  fun_induction findbLoop block set start len i with
  | case1 i bound fault read => cases found
  | case2 i bound b read member =>
    cases found
    exact ⟨b, member, read⟩
  | case3 i bound b read other ih => exact ih found
  | case4 i bound =>
    cases found
    exact absurd inside bound

theorem skipCharset_le (skipped : skipCharset block set k = .ok e) : k ≤ e ∧ e < block.length := by
  fun_induction skipCharset block set k with
  | case1 => cases skipped
  | case2 k b read member ih =>
    have later := ih skipped
    omega
  | case3 k b read =>
    cases skipped
    exact ⟨Nat.le_refl _, lt_length_of_read read⟩

theorem skipCharset_lt (read : readAt block k = .ok b) (member : b ∈ set)
    (skipped : skipCharset block set k = .ok e) : k < e := by
  rw [skipCharset, read] at skipped
  simp only [if_pos member] at skipped
  exact (skipCharset_le skipped).1

end Progress

/-- The loop of `custom_headers_callback`: the calls, and `i` behind the loop. -/
def headerLines (block : List UInt8) (i : Nat) : Except Fault (List Property × Nat) :=
  match _ : findbCharset block i (block.length - i) separators with
  | .error fault => .error fault
  | .ok j =>
    if _ : (j : Int) < block.length - i - 1 then
      match _ : skipCharset block separators (i + j) with
      | .error fault => .error fault
      | .ok k =>
        match findbCharset block k (block.length - k) lineEnds with
        | .error fault => .error fault
        | .ok n =>
          match _ : skipCharset block lineEnds (k + n) with
          | .error fault => .error fault
          | .ok ends => do
            let calls ←
              if n < block.length - k then do
                let name ← copyBytes block i j
                let value ← copyBytes block k n
                pure [(name, value)]
              else pure []
            if n ≥ block.length - k then return (calls, ends)
            let (later, i) ← headerLines block ends
            return (calls ++ later, i)
    else .ok ([], i)
termination_by block.length - i
decreasing_by
  rename_i found bound skipped passed _
  obtain ⟨b, member, read⟩ := findbLoop_member found (by omega)
  have := skipCharset_lt read member skipped
  have := skipCharset_le passed
  omega

/-- `custom_headers_callback`; `copied` is what `lws_hdr_custom_copy` puts into `buf`. -/
def customHeadersCallback (block copied : List UInt8) : Except Fault (List Property) := do
  let (calls, i) ← headerLines block 0
  let j ← findbCharset block i (block.length - i) separators
  let name ← copyBytes block i j
  return calls ++ [(name, copied)]

/-! ## Blocks that are scanned -/

/-- What one turn of the loop takes: a word, separators, a value and ends of lines, each as long as it goes. -/
structure ScannedLine where
  word : List UInt8
  seps : List UInt8
  value : List UInt8
  ends : List UInt8
  word_plain : ∀ b ∈ word, b ∉ separators
  seps_nonempty : seps ≠ []
  seps_all : ∀ b ∈ seps, b ∈ separators
  value_begins : ∀ b ∈ value.head?, b ∉ separators
  value_plain : ∀ b ∈ value, b ∉ lineEnds
  ends_nonempty : ends ≠ []
  ends_all : ∀ b ∈ ends, b ∈ lineEnds

def ScannedLine.bytes (line : ScannedLine) : List UInt8 :=
  line.word ++ (line.seps ++ (line.value ++ line.ends))

/-- The lines, and the rest that has no separator but for its last byte. -/
def scannedBlock (lines : List ScannedLine) (tail : List UInt8) : List UInt8 :=
  lines.flatMap ScannedLine.bytes ++ tail

/-- Behind a line stands something that is not an end of a line. -/
def Follows : List ScannedLine → List UInt8 → Prop
  | [], _ => True
  | _ :: lines, tail => (∃ b ∈ (scannedBlock lines tail).head?, b ∉ lineEnds) ∧ Follows lines tail

/-- The block falls into lines and a rest. -/
def Scannable (block : List UInt8) : Prop :=
  ∃ lines tail, block = scannedBlock lines tail ∧ Follows lines tail ∧ ∀ b ∈ tail.dropLast, b ∉ separators

/-! ## Blocks of headers -/

/-- The name of a header. -/
structure HeaderName where
  bytes : List UInt8
  nonempty : bytes ≠ []
  token : ∀ b ∈ bytes, b ∉ separators ∧ b ∉ lineEnds

/-- A complete line, its value without ends of lines. -/
structure HeaderLine where
  name : HeaderName
  value : List UInt8
  value_plain : ∀ b ∈ value, b ∉ lineEnds

/-- `name: value`, CR, LF. -/
def HeaderLine.bytes (line : HeaderLine) : List UInt8 :=
  line.name.bytes ++ ([58, 32] ++ (line.value ++ [13, 10]))

/-- The property that a line is to set. -/
def HeaderLine.property (line : HeaderLine) : Property := (line.name.bytes, line.value)

/-- Complete lines, then a name, with its colon or without. -/
def headerBlock (lines : List HeaderLine) (last : HeaderName) (colon : Bool) : List UInt8 :=
  lines.flatMap HeaderLine.bytes ++ (last.bytes ++ if colon then [58] else [])

end QjsLws.Native
