import Mathlib.Data.List.Lex
import QjsLws.Url.PercentEncoding
import Mathlib.Data.List.Sort

/-!
# Search parameters

The `application/x-www-form-urlencoded` codec and the list operations of `URLSearchParams`
(`lib/lws/url.js`).
-/

namespace QjsLws.Url

open QjsLws.Misc

/-- A pair of a name and a value. -/
abbrev Param := Text × Text

/-- `s.replace(/\+/g, ' ')`. -/
def spaceForPlus (s : Text) : Text := s.map fun c => if c = '+' then ' ' else c

/-- One sequence of `parseFormURLEncoded`, cut at its first `=`. -/
def parseFormSequence (seq : Text) : Except JsError Param := do
  let rawName := seq.takeWhile (· ≠ '=')
  let rawValue := (seq.dropWhile (· ≠ '=')).drop 1
  let name ← percentDecodeString (spaceForPlus rawName)
  let value ← percentDecodeString (spaceForPlus rawValue)
  pure (name, value)

/-- `parseFormURLEncoded`. -/
def parseFormURLEncoded (input : Text) : Except JsError (List Param) :=
  if input = [] then .ok [] else ((split '&' input).filter (· ≠ [])).mapM parseFormSequence

/-- `s.replace(/%20/g, '+')`. -/
def plusForSpace : Text → Text
  | '%' :: '2' :: '0' :: rest => '+' :: plusForSpace rest
  | c :: rest => c :: plusForSpace rest
  | [] => []

/-- `formEncode`. -/
def formEncode (s : Text) : Text := plusForSpace (utf8PercentEncode s formExtra)

/-- `serializeFormURLEncoded`. -/
def serializeFormURLEncoded (list : List Param) : Text :=
  join ['&'] (list.map fun (name, value) => formEncode name ++ '=' :: formEncode value)

/-- The UTF-16 code units that strings are compared by. -/
def codeUnits (t : Text) : List Nat :=
  t.flatMap fun c =>
    if c.toNat < 0x10000 then [c.toNat]
    else [0xd800 + (c.toNat - 0x10000) / 0x400, 0xdc00 + (c.toNat - 0x10000) % 0x400]

namespace SearchParams

/-- `append` on the list. -/
def append (list : List Param) (name value : Text) : List Param := list ++ [(name, value)]

/-- `delete` on the list. -/
def delete (list : List Param) (name : Text) (value : Option Text) : List Param :=
  match value with
  | some value => list.filter fun (n, v) => !(n = name && v = value)
  | none => list.filter fun (n, _) => n ≠ name

/-- The loop of `set`. -/
def setLoop (name value : Text) : Bool → List Param → List Param
  | found, [] => if found then [] else [(name, value)]
  | found, pair :: rest =>
    if pair.1 = name then
      if found then setLoop name value found rest
      else (name, value) :: setLoop name value true rest
    else pair :: setLoop name value found rest

/-- `set` on the list. -/
def set (list : List Param) (name value : Text) : List Param := setLoop name value false list

/-- `sort` on the list: stable, and by the code units of the names. -/
def sort (list : List Param) : List Param :=
  list.insertionSort fun a b => codeUnits a.1 ≤ codeUnits b.1

end SearchParams

end QjsLws.Url
