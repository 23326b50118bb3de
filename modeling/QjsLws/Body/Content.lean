import QjsLws.Misc.Text

/-!
# The content of bodies

What `Body` (`lib/lws/body.js`) makes of the value it is given, and how `arrayBuffer`, `bytes` and
`text` put the chunks of its stream together (`lib/lws/stream-utils.js`). A stream is shown as the
chunks it delivers.
-/

namespace QjsLws.Body

open QjsLws.Misc

/-! ## Binary data -/

/-- The element types of typed arrays. -/
inductive Element where
  | int8
  | uint8
  | uint8Clamped
  | int16
  | uint16
  | int32
  | uint32
  | float16
  | float32
  | float64
  | bigInt64
  | bigUint64
  deriving DecidableEq, Repr

/-- `BYTES_PER_ELEMENT`. -/
def Element.width : Element → Nat
  | .int8 | .uint8 | .uint8Clamped => 1
  | .int16 | .uint16 | .float16 => 2
  | .int32 | .uint32 | .float32 => 4
  | .float64 | .bigInt64 | .bigUint64 => 8

/-- A typed array, or a `DataView` where there is no element type, over a part of a buffer. -/
structure View where
  element : Option Element
  buffer : List UInt8
  byteOffset : Nat
  byteLength : Nat
  inside : byteOffset + byteLength ≤ buffer.length
  whole : ∀ e, element = some e → e.width ∣ byteLength

/-- `buffer.slice(byteOffset, byteOffset + byteLength)`. -/
def View.bytes (v : View) : List UInt8 := (v.buffer.drop v.byteOffset).take v.byteLength

/-- A number from its bytes, the least significant first as on the machines the code runs on. -/
def littleEndian (bytes : List UInt8) : Nat := bytes.foldr (fun b n => b.toNat + 256 * n) 0

/-- `ToUint8` of a floating-point number with the given bits: cut off towards zero, modulo 256, and
zero for what is not finite. -/
def floatToUint8 (mantissa exponent bits : Nat) : UInt8 :=
  let e := bits / 2 ^ mantissa % 2 ^ exponent
  let bias := 2 ^ (exponent - 1) - 1
  if e < bias ∨ e = 2 ^ exponent - 1 then 0
  else
    let whole := (2 ^ mantissa + bits % 2 ^ mantissa) * 2 ^ (e - bias) / 2 ^ mantissa
    if bits / 2 ^ (mantissa + exponent) % 2 = 1 then UInt8.ofNat (256 - whole % 256)
    else UInt8.ofNat whole

/-- What an element becomes in a `Uint8Array`. -/
def Element.toUint8 (e : Element) (bytes : List UInt8) : UInt8 :=
  match e with
  | .float16 => floatToUint8 10 5 (littleEndian bytes)
  | .float32 => floatToUint8 23 8 (littleEndian bytes)
  | .float64 => floatToUint8 52 11 (littleEndian bytes)
  | _ => UInt8.ofNat (littleEndian bytes)

/-- Whether the elements are of type `BigInt`, which `set` does not convert. -/
def Element.isBigInt : Element → Bool
  | .bigInt64 | .bigUint64 => true
  | _ => false

/-- What `arr.set(view)` stores: one byte for each element, and nothing for a `DataView`, which has
no length; `none` when it throws. -/
def View.elements (v : View) : Option (List UInt8) :=
  match v.element with
  | none => some []
  | some e =>
    if e.isBigInt then none
    else some ((List.range (v.byteLength / e.width)).map fun i =>
      e.toUint8 ((v.bytes.drop (i * e.width)).take e.width))

/-! ## Bodies and chunks -/

/-- A chunk of a stream, an iterable or an async iterable. -/
inductive Chunk where
  | string (t : Text)
  | buffer (bytes : List UInt8)
  | view (v : View)

/-- The argument of the constructor. The method of an `object` returns an `ArrayBuffer`, or a promise
of one where it is `async`. -/
inductive BodyInit where
  | none
  | string (t : Text)
  | arrayBuffer (bytes : List UInt8)
  | view (v : View)
  | object (bytes : List UInt8) (async : Bool)
  | source (chunks : List Chunk)

/-- What a stream delivers: a chunk, or the promise of an `arrayBuffer` method. -/
inductive Delivered where
  | chunk (c : Chunk)
  | promise

/-- The chunks of the stream that the constructor makes of its argument. -/
def BodyInit.delivered : BodyInit → List Delivered
  | .none => []
  | .string t => [.chunk (.string t)]
  | .arrayBuffer bytes => [.chunk (.buffer bytes)]
  | .view v => [.chunk (.buffer v.bytes)]
  | .object bytes async => [if async then .promise else .chunk (.buffer bytes)]
  | .source chunks => chunks.map .chunk

/-! ## `concatArrayBuffer` -/

/-- What `concatArrayBuffer` is given: `toArrayBuffer` has replaced the strings. -/
inductive Binary where
  | buffer (bytes : List UInt8)
  | view (v : View)
  | promise

/-- `typeof chunk == 'string' ? toArrayBuffer(chunk) : chunk`. -/
def Delivered.binary : Delivered → Binary
  | .chunk (.string t) => .buffer (utf8 t)
  | .chunk (.buffer bytes) => .buffer bytes
  | .chunk (.view v) => .view v
  | .promise => .promise

/-- `chunk.byteLength`; `none` when it is undefined, which makes every sum `NaN`. -/
def Binary.byteLength : Binary → Option Nat
  | .buffer bytes => some bytes.length
  | .view v => some v.byteLength
  | .promise => none

/-- The bytes that `arr.set(ArrayBuffer.isView(chunk) ? chunk : new Uint8Array(chunk), pos)`
stores. -/
def Binary.stored : Binary → Option (List UInt8)
  | .buffer bytes => some bytes
  | .view v => v.elements
  | .promise => some []

/-- Stores bytes in an array; `none` is the `RangeError` where they do not fit. -/
def store (arr data : List UInt8) (pos : Nat) : Option (List UInt8) :=
  if pos + data.length ≤ arr.length then
    some (arr.take pos ++ data ++ arr.drop (pos + data.length))
  else none

/-- `n + chunk.byteLength`. -/
def advance (n : Option Nat) (chunk : Binary) : Option Nat :=
  n.bind fun n => chunk.byteLength.map (n + ·)

/-- The loop of `concatArrayBuffer`. -/
def concatLoop (arr : List UInt8) (pos : Option Nat) : List Binary → Option (List UInt8)
  | [] => some arr
  | chunk :: chunks =>
    (chunk.stored.bind (store arr · (pos.getD 0))).bind fun arr =>
      concatLoop arr (advance pos chunk) chunks

/-- `concatArrayBuffer`; `none` when it throws. -/
def concatArrayBuffer (chunks : List Binary) : Option (List UInt8) :=
  let totalSize := chunks.foldl advance (some 0)
  concatLoop (List.replicate (totalSize.getD 0) 0) (some 0) chunks

/-! ## `toString(buffer, true)` -/

/-- The state of `lossy_utf8_decode` in `lws.c` between two bytes. -/
structure Decoder where
  seen : Nat
  needed : Nat
  cp : Nat
  lower : Nat
  upper : Nat
  deriving DecidableEq, Repr

/-- The state between two characters. -/
def Decoder.start : Decoder := ⟨0, 0, 0, 0x80, 0xbf⟩

/-- A byte at the start of a character. -/
def Decoder.lead (b : Nat) : Text × Decoder :=
  if b < 0x80 then ([Char.ofNat b], .start)
  else if 0xc2 ≤ b ∧ b ≤ 0xdf then ([], { Decoder.start with needed := 1, cp := b % 0x20 })
  else if 0xe0 ≤ b ∧ b ≤ 0xef then
    ([], { Decoder.start with
      needed := 2
      cp := b % 0x10
      lower := if b = 0xe0 then 0xa0 else 0x80
      upper := if b = 0xed then 0x9f else 0xbf })
  else if 0xf0 ≤ b ∧ b ≤ 0xf4 then
    ([], { Decoder.start with
      needed := 3
      cp := b % 8
      lower := if b = 0xf0 then 0x90 else 0x80
      upper := if b = 0xf4 then 0x8f else 0xbf })
  else ([Char.ofNat 0xfffd], .start)

/-- The next byte. One that does not continue the character is looked at again as a first byte. -/
def Decoder.step (d : Decoder) (b : Nat) : Text × Decoder :=
  if d.needed = 0 then lead b
  else if b < d.lower ∨ d.upper < b then
    (Char.ofNat 0xfffd :: (lead b).1, (lead b).2)
  else
    let cp := d.cp * 0x40 + b % 0x40
    if d.seen + 1 = d.needed then ([Char.ofNat cp], .start)
    else ([], { Decoder.start with seen := d.seen + 1, needed := d.needed, cp })

/-- `lossy_utf8_decode` from a state. -/
def lossyFrom (d : Decoder) : List UInt8 → Text
  | [] => if d.needed = 0 then [] else [Char.ofNat 0xfffd]
  | b :: bytes => (d.step b.toNat).1 ++ lossyFrom (d.step b.toNat).2 bytes

/-- `lossy_utf8_decode`. -/
def lossyUtf8 (bytes : List UInt8) : Text := lossyFrom .start bytes

/-! ## Reading a body -/

namespace BodyInit

/-- `Body.arrayBuffer` of a new body; `none` when the promise is rejected. -/
def readArrayBuffer (init : BodyInit) : Option (List UInt8) :=
  match init with
  | .none => some []
  | _ => concatArrayBuffer (init.delivered.map Delivered.binary)

/-- `Body.bytes`. -/
def readBytes (init : BodyInit) : Option (List UInt8) := init.readArrayBuffer

/-- `Body.text`. -/
def readText (init : BodyInit) : Option Text := init.readArrayBuffer.map lossyUtf8

end BodyInit

/-! ## The content that a body stands for -/

/-- The bytes of a chunk. -/
def Chunk.bytes : Chunk → List UInt8
  | .string t => utf8 t
  | .buffer bytes => bytes
  | .view v => v.bytes

namespace BodyInit

/-- The bytes of the whole body. -/
def contents : BodyInit → List UInt8
  | .none => []
  | .string t => utf8 t
  | .arrayBuffer bytes => bytes
  | .view v => v.bytes
  | .object bytes _ => bytes
  | .source chunks => chunks.flatMap Chunk.bytes

/-- The body is read as its bytes, however they are chunked, and as the text they decode to. -/
structure ReadsContents (init : BodyInit) : Prop where
  arrayBuffer : init.readArrayBuffer = some init.contents
  bytes : init.readBytes = some init.contents
  text : init.readText = some (lossyUtf8 init.contents)

end BodyInit

/-- The bytes of the view are those of its elements converted one by one, followed by zeros. Where
an element has several bytes this leaves few bytes that are not zero. -/
def View.ElementsAreBytes (v : View) : Prop :=
  match v.element with
  | none => ∀ b ∈ v.bytes, b = 0
  | some e =>
    match e with
    | .int8 | .uint8 | .uint8Clamped => True
    | .int16 | .uint16 | .int32 | .uint32 => ∀ b ∈ v.bytes.tail, b = 0
    | .float16 | .float32 | .float64 => ∀ b ∈ v.bytes, b = 0
    | .bigInt64 | .bigUint64 => False

/-- The body has no promise in its stream, nor a view that is stored element by element with other
bytes than its own. -/
def BodyInit.Direct : BodyInit → Prop
  | .object bytes async => async = false ∨ bytes = []
  | .source chunks => ∀ v, .view v ∈ chunks → v.ElementsAreBytes
  | _ => True

end QjsLws.Body
