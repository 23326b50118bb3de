import Mathlib.Algebra.Group.Int.Defs
import Mathlib.Algebra.Group.Nat.Defs
import Mathlib.Order.Lattice

/-!
# Buffer arguments

`get_offset_length`, `get_typedarray_buffer` and `get_buffer` of `js-utils.c`, by which native functions
take a part of an `ArrayBuffer`, with `MIN`, `MAX`, `CLAMP` and `WRAP` of `lws.h`. A `size_t` is a number
below `2 ^ 64`, an `int64_t` an integer that wraps at `2 ^ 63`. The conversions of `js-utils.h` are
applied to the number that the engine makes of a value.
-/

namespace QjsLws.Native

/-! ## Machine integers -/

/-- A number stored into a `size_t`. -/
def size (n : Int) : Nat := (n % 2 ^ 64).toNat

/-- A number stored into an `int64_t`. -/
def int64 (n : Int) : Int := (n + 2 ^ 63) % 2 ^ 64 - 2 ^ 63

/-- `to_int64`. -/
def toInt64 (n : Int) : Int := int64 n

/-- `to_uint32`. -/
def toUint32 (n : Int) : Nat := (n % 2 ^ 32).toNat

/-- `SIZE_MAX`. -/
def sizeMax : Nat := 2 ^ 64 - 1

/-- `CLAMP`. -/
def clamp (a min max : Int) : Int := Min.min (Max.max a min) max

/-- `WRAP`. -/
def wrap (n len : Int) : Int := if n < 0 then int64 (n + len) else n

/-! ## Arguments -/

/-- An `ArrayBuffer`. No engine makes one of `2 ^ 53` bytes. -/
structure ArrayBuffer where
  byteLength : Nat
  small : byteLength < 2 ^ 53

/-- A part of a buffer that a typed array or a `DataView` shows. -/
structure BufferView where
  buffer : ArrayBuffer
  byteOffset : Nat
  byteLength : Nat
  inside : byteOffset + byteLength ≤ buffer.byteLength

/-- The first argument. An `object` is one whose property `buffer` is an `ArrayBuffer`. -/
inductive BufferArg where
  | arrayBuffer (b : ArrayBuffer)
  | typedArray (v : BufferView)
  | dataView (v : BufferView)
  | object (b : ArrayBuffer) (byteOffset byteLength : Int)
  | other

/-- What a native function reads or writes. -/
structure Window where
  offset : Nat
  length : Nat
  deriving DecidableEq, Repr

/-! ## The functions -/

/-- `get_offset_length` with the arguments after the buffer: the offset, and `*lenp`. -/
def getOffsetLength (args : List Int) (maxlen : Nat) : Nat × Nat :=
  let (ofs, len) :=
    match args with
    | [] => (0, int64 maxlen)
    | [ofs] => (wrap (toInt64 ofs) (int64 maxlen), int64 maxlen)
    | ofs :: len :: _ => (wrap (toInt64 ofs) (int64 maxlen), wrap (toInt64 len) (int64 maxlen))
  let ofs := clamp ofs 0 (int64 maxlen)
  let maxlen := size (maxlen - ofs)
  (size ofs, size (clamp len 0 (int64 maxlen)))

/-- `get_typedarray_buffer`: the buffer, `*p_offset` and `*p_length`. The engine knows typed arrays; of
anything else with a `buffer` the properties are read. -/
def getTypedarrayBuffer : BufferArg → Option (ArrayBuffer × Nat × Nat)
  | .typedArray v => some (v.buffer, v.byteOffset, v.byteLength)
  | .dataView v => some (v.buffer, toUint32 v.byteOffset, toUint32 v.byteLength)
  | .object b byteOffset byteLength => some (b, toUint32 byteOffset, toUint32 byteLength)
  | .arrayBuffer b => some (b, 0, sizeMax)
  | .other => none

/-- `get_buffer`: the window; `none` where it returns `NULL`. -/
def getBuffer (arg : BufferArg) (args : List Int) : Option Window :=
  (getTypedarrayBuffer arg).map fun (buffer, offset, bytes) =>
    let maxlen := size (buffer.byteLength - offset)
    let bytes := min maxlen bytes
    if args = [] then ⟨offset, bytes⟩
    else
      let (ofs, len) := getOffsetLength args maxlen
      ⟨size (offset + ofs), len⟩

/-! ## What a window may be -/

/-- The window lies in the buffer, and in the view where the argument is one. -/
def Window.Inside (w : Window) : BufferArg → Prop
  | .arrayBuffer b | .object b _ _ => w.offset + w.length ≤ b.byteLength
  | .typedArray v | .dataView v =>
    v.byteOffset ≤ w.offset ∧ w.offset + w.length ≤ v.byteOffset + v.byteLength ∧
      w.offset + w.length ≤ v.buffer.byteLength
  | .other => False

/-- An offset or length, where a negative one counts from the end, but not to before the start. -/
def fromEnd (n : Int) (rest : Nat) : Nat := (wrap (toInt64 n) rest).toNat

/-- The part of the buffer from `base` that the arguments ask for lies in the view: it begins not before
the view, and the view goes to the end of its buffer or a length is given that ends in the view. -/
def AsksInside (v : BufferView) (base : Nat) : List Int → Prop
  | [] => True
  | ofs :: rest =>
    let start := base + fromEnd ofs (v.buffer.byteLength - base)
    v.byteOffset ≤ start ∧
      (v.byteOffset + v.byteLength = v.buffer.byteLength ∨
        ∃ len more, rest = len :: more ∧
          start + fromEnd len (v.buffer.byteLength - base) ≤ v.byteOffset + v.byteLength)

/-- The arguments lead to a proper window: an object begins in its buffer, or an offset is given; a
`DataView` without further arguments begins below `2 ^ 32`; and of a view only what it shows is asked
for. -/
def Proper : BufferArg → List Int → Prop
  | .arrayBuffer _, _ | .other, _ => True
  | .object b byteOffset _, args => toUint32 byteOffset ≤ b.byteLength ∨ args ≠ []
  | .typedArray v, args => AsksInside v v.byteOffset args
  | .dataView v, args => (args = [] → v.byteOffset < 2 ^ 32) ∧ AsksInside v (toUint32 v.byteOffset) args

end QjsLws.Native
