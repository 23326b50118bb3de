import QjsLws.Url.PercentEncoding

/-!
# Hosts

`parseHost` and `serializeHost` (`lib/lws/url.js`) over `LWSSockAddr46` (`lws-sockaddr46.c`).
-/

namespace QjsLws.Url

open QjsLws.Misc

/-- Code outside the repository: `toLowerCase` of the engine, and the numeric address parser and
writer of libwebsockets on four or sixteen bytes. -/
structure Native where
  toLowerCase : Text → Text
  parseNumericAddress : Text → Option (List UInt8)
  writeNumericAddress : List UInt8 → Text

/-- A host other than `null`: an IPv4 number, the pieces of an IPv6 address, or a string. -/
inductive Host where
  | ipv4 (address : Nat)
  | ipv6 (address : List Nat)
  | text (name : Text)
  deriving DecidableEq, Repr

/-- A string as C sees it. -/
def cString (t : Text) : Text := t.takeWhile (· ≠ Char.ofNat 0)

/-- `new LWSSockAddr46(str).address` for a string; `none` is `undefined`. A string with a dot ends
at its first colon, as in `1.2.3.4:80`. -/
def sockAddr46Address (native : Native) (str : Text) : Except JsError (Option (List UInt8)) :=
  match cString str with
  | '[' :: rest =>
    if rest.contains ']' then .ok (native.parseNumericAddress (rest.takeWhile (· ≠ ']')))
    else .error ⟨"SyntaxError".toList, "missing ending ]".toList⟩
  | s => .ok (native.parseNumericAddress (if s.contains '.' then s.takeWhile (· ≠ ':') else s))

/-- `new LWSSockAddr46(bytes).host` for four or sixteen bytes. -/
def sockAddr46Host (native : Native) (bytes : List UInt8) : Text :=
  native.writeNumericAddress bytes

/-- `parseIPv4Number`; `none` is `NaN`. -/
def parseIPv4Number (input : Text) : Option Nat :=
  if input = [] then none
  else
    let (digits, radix) :=
      match input with
      | '0' :: 'x' :: rest | '0' :: 'X' :: rest => (rest, 16)
      | '0' :: d :: rest => (d :: rest, 8)
      | _ => (input, 10)
    if digits = [] then some 0
    else if digits.all (isRadixDigit radix) then some (parseInt radix digits)
    else none

/-- `parseIPv4`. -/
def parseIPv4 (native : Native) (input : Text) : Except JsError (Option Nat) :=
  (sockAddr46Address native input).map fun
    | some [b0, b1, b2, b3] =>
      some (((b0.toNat * 256 + b1.toNat) * 256 + b2.toNat) * 256 + b3.toNat)
    | _ => none

/-- `serializeIPv4`. -/
def serializeIPv4 (native : Native) (address : Nat) : Text :=
  sockAddr46Host native
    [.ofNat (address / 256 / 256 / 256 % 256), .ofNat (address / 256 / 256 % 256),
      .ofNat (address / 256 % 256), .ofNat (address % 256)]

/-- The 16-bit pieces of the bytes. -/
def piecesOf : List UInt8 → List Nat
  | b :: b' :: rest => (b.toNat * 256 + b'.toNat) :: piecesOf rest
  | _ => []

/-- `parseIPv6`. -/
def parseIPv6 (native : Native) (input : Text) : Except JsError (Option (List Nat)) :=
  (sockAddr46Address native input).map fun
    | some bytes => if bytes.length = 16 then some (piecesOf bytes) else none
    | none => none

/-- `serializeIPv6`. -/
def serializeIPv6 (native : Native) (address : List Nat) : Text :=
  sockAddr46Host native
    (address.flatMap fun piece => [UInt8.ofNat (piece / 256), UInt8.ofNat (piece % 256)])

/-- `FORBIDDEN_HOST_CODEPOINTS`. -/
def forbiddenHostCodePoints : List Char :=
  [0x00, 0x09, 0x0a, 0x0d, 0x20, 0x23, 0x2f, 0x3a, 0x3c, 0x3e, 0x3f, 0x40, 0x5b, 0x5c, 0x5d, 0x5e,
    0x7c].map Char.ofNat

/-- `FORBIDDEN_DOMAIN_EXTRA`. -/
def forbiddenDomainExtra : List Char := forbiddenHostCodePoints ++ ['%']

/-- `containsForbiddenHostCodePoint`. -/
def containsForbiddenHostCodePoint (s : Text) : Bool := s.any forbiddenHostCodePoints.contains

/-- `parseOpaqueHost`. -/
def parseOpaqueHost (input : Text) : Option Text :=
  if containsForbiddenHostCodePoint input then none else some (utf8PercentEncode input c0Extra)

/-- `endsInANumber`. -/
def endsInANumber (input : Text) : Bool :=
  let parts := split '.' input
  let parts := if parts.length > 1 ∧ parts.getLast? = some [] then parts.dropLast else parts
  match parts.getLast? with
  | none => false
  | some last => (last ≠ [] && last.all Char.isDigit) || (parseIPv4Number last).isSome

/-- A character that `parseHost` refuses in a domain. -/
def forbiddenInDomain (ch : Char) : Bool :=
  forbiddenDomainExtra.contains ch || ch.toNat ≤ 0x1f || ch.toNat = 0x7f

/-- `parseHost`; `none` is `null`. -/
def parseHost (native : Native) (input : Text) (isSpecialArg : Bool) :
    Except JsError (Option Host) :=
  if input.head? = some '[' then
    if input.getLast? ≠ some ']' then .ok none
    else (parseIPv6 native input.tail.dropLast).map (Option.map .ipv6)
  else if !isSpecialArg then .ok ((parseOpaqueHost input).map .text)
  else if input = [] then .ok none
  else
    match percentDecodeString input with
    | .error e => .error e
    | .ok domain =>
      let asciiDomain := native.toLowerCase domain
      if asciiDomain.any forbiddenInDomain then .ok none
      else if endsInANumber asciiDomain then (parseIPv4 native asciiDomain).map (Option.map .ipv4)
      else .ok (some (.text asciiDomain))

/-- `serializeHost`. -/
def serializeHost (native : Native) : Host → Text
  | .ipv4 address => serializeIPv4 native address
  | .ipv6 address => '[' :: serializeIPv6 native address ++ [']']
  | .text name => name

end QjsLws.Url
