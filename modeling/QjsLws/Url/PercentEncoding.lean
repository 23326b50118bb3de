import QjsLws.Misc.Utf8

/-!
# Percent-encoding

The percent-encode sets and codecs of `lib/lws/url.js`. Code points are numbers as in the source.
-/

namespace QjsLws.Url

open QjsLws.Misc

/-- `isC0ControlOrNonASCII`. -/
def isC0ControlOrNonASCII (cp : Nat) : Bool := cp ≤ 0x1f || cp > 0x7e

/-- `FRAGMENT_EXTRA`. -/
def fragmentExtra : List Nat := [0x20, 0x22, 0x3c, 0x3e, 0x60]

/-- `QUERY_EXTRA`. -/
def queryExtra : List Nat := [0x20, 0x22, 0x23, 0x3c, 0x3e]

/-- `SPECIAL_QUERY_EXTRA`. -/
def specialQueryExtra : List Nat := queryExtra ++ [0x27]

/-- `PATH_EXTRA`. -/
def pathExtra : List Nat := queryExtra ++ [0x3f, 0x5e, 0x60, 0x7b, 0x7d]

/-- `USERINFO_EXTRA`. -/
def userinfoExtra : List Nat :=
  pathExtra ++ [0x2f, 0x3a, 0x3b, 0x3d, 0x40, 0x5b, 0x5c, 0x5d, 0x5e, 0x7c]

/-- `COMPONENT_EXTRA`. -/
def componentExtra : List Nat := userinfoExtra ++ [0x24, 0x25, 0x26, 0x2b, 0x2c]

/-- `FORM_EXTRA`. -/
def formExtra : List Nat := componentExtra ++ [0x21, 0x27, 0x28, 0x29, 0x7e]

/-- `C0_EXTRA`. -/
def c0Extra : List Nat := []

/-- `percentEncodeByte`. -/
def percentEncodeByte (byte : UInt8) : Text := percentByte byte

/-- Whether `utf8PercentEncode` copies the character. -/
def copied (extraSet : List Nat) (ch : Char) : Bool :=
  ch.toNat < 0x80 && !isC0ControlOrNonASCII ch.toNat && !extraSet.contains ch.toNat

/-- One character of `utf8PercentEncode`. -/
def encodeChar (extraSet : List Nat) (ch : Char) : Text :=
  if copied extraSet ch then [ch] else (String.utf8EncodeChar ch).flatMap percentEncodeByte

/-- `utf8PercentEncode`. -/
def utf8PercentEncode (input : Text) (extraSet : List Nat) : Text :=
  input.flatMap (encodeChar extraSet)

/-- `isHexDigit`. -/
def isHexDigit (byte : UInt8) : Bool :=
  (byte ≥ 0x30 && byte ≤ 0x39) || (byte ≥ 0x41 && byte ≤ 0x46) || (byte ≥ 0x61 && byte ≤ 0x66)

/-- The value of a hexadecimal digit. -/
def hexValue (byte : UInt8) : UInt8 :=
  if byte ≤ 0x39 then byte - 0x30 else if byte ≤ 0x46 then byte - 0x37 else byte - 0x57

/-- `percentDecodeBytes`. An escape needs two more bytes, so the last two are copied. -/
def percentDecodeBytes : List UInt8 → List UInt8
  | byte :: h1 :: h2 :: rest =>
    if byte = 0x25 && isHexDigit h1 && isHexDigit h2 then
      (16 * hexValue h1 + hexValue h2) :: percentDecodeBytes rest
    else byte :: percentDecodeBytes (h1 :: h2 :: rest)
  | bytes => bytes

/-- `%02x ` of a byte. -/
def shownByte (byte : UInt8) : Text :=
  [Nat.digitChar (byte.toNat / 16), Nat.digitChar (byte.toNat % 16), ' ']

/-- `toString` of `lws.so` without its boolean argument: it throws at malformed bytes. -/
def toString (bytes : List UInt8) : Except JsError Text :=
  match decodeUtf8 bytes with
  | .ok t => .ok t
  | .error offset =>
    .error ⟨"TypeError".toList, "invalid UTF-8 at offset ".toList ++ decimal offset
      ++ ": ".toList ++ ((bytes.drop offset).take 4).flatMap shownByte⟩

/-- `percentDecodeString`. -/
def percentDecodeString (input : Text) : Except JsError Text :=
  toString (percentDecodeBytes (utf8 input))

end QjsLws.Url
