import QjsLws.Native.CaseNames

/-!
# Options by name

`js_has_property`, `js_has_property2` and `js_get_property` of `js-utils.c`, and what `str_property`
(`js-utils.h`) does with them. A property is found by the bytes of its name; `none` is `undefined`.
-/

namespace QjsLws.Native

open QjsLws.Misc

/-- An object: its properties, own or inherited, with their values. -/
structure ScriptObject (α : Type) where
  property : List UInt8 → Option (Option α)

variable {α : Type}

namespace ScriptObject

/-- `JS_HasProperty`. -/
def has (obj : ScriptObject α) (name : List UInt8) : Bool := (obj.property name).isSome

/-- `JS_GetPropertyStr`. -/
def get (obj : ScriptObject α) (name : List UInt8) : Option α := (obj.property name).join

end ScriptObject

/-- `char buf[strlen(name) + 1]; camelize(buf, sizeof(buf), name)`. -/
def camelized (name : CString) : Except Fault CString := do
  let (buf, _) ← camelize (List.replicate (name.bytes.length + 1) 0) name
  return CString.upTo buf

/-- `js_has_property`. -/
def jsHasProperty (obj : ScriptObject α) (name : CString) : Except Fault Bool := do
  if obj.has name.bytes then return true
  let buf ← camelized name
  if buf ≠ name then return obj.has buf.bytes
  return false

/-- `js_has_property2`. -/
def jsHasProperty2 (obj : ScriptObject α) (name : CString) : Except Fault Bool := do
  if ← jsHasProperty obj name then return true
  let buf ← camelized name
  jsHasProperty obj buf

/-- `js_get_property`. -/
def jsGetProperty (obj : ScriptObject α) (name : CString) : Except Fault (Option α) := do
  match obj.get name.bytes with
  | some value => return some value
  | none =>
    let buf ← camelized name
    if buf ≠ name then return obj.get buf.bytes
    return none

/-- `str_property`: the value that is converted to a string and stored, if one is. -/
def strProperty (obj : ScriptObject α) (name : CString) : Except Fault (Option (Option α)) := do
  if ← jsHasProperty2 obj name then return some (← jsGetProperty obj name)
  return none

/-! ## Spellings -/

/-- A digit. -/
def isdigit (b : UInt8) : Bool := 48 ≤ b && b ≤ 57

/-- A word of a name in snake_case. -/
def LowerWord (word : List UInt8) : Prop := word ≠ [] ∧ ∀ b ∈ word, islower b = true ∨ isdigit b = true

/-- Lower case, or words with an underscore between two of them. -/
def SnakeCase (name : List UInt8) : Prop :=
  ∃ (word : List UInt8) (words : List (List UInt8)), LowerWord word ∧ (∀ w ∈ words, LowerWord w) ∧
    name = word ++ words.flatMap (underscore :: ·)

/-- Letters and digits, the first of them in lower case. -/
def CamelCase (name : List UInt8) : Prop :=
  ∃ b rest, name = b :: rest ∧ islower b = true ∧
    ∀ c ∈ rest, islower c = true ∨ isupper c = true ∨ isdigit c = true

/-- The camelCase spelling of a name: a letter takes the place of an underscore before it. -/
def camelSpelling : List UInt8 → List UInt8
  | [] => []
  | [b] => [b]
  | b :: c :: rest =>
    if b = underscore then toupper c :: camelSpelling rest else b :: camelSpelling (c :: rest)

/-- The name without its underscores. -/
def flat (name : List UInt8) : List UInt8 := name.filter (· ≠ underscore)

/-- The three lookups agree on a name and its camelCase spelling, and a name without underscores is its
own. -/
structure LookupAgrees (obj : ScriptObject α) (name : CString) : Prop where
  has : jsHasProperty obj name = .ok (obj.has name.bytes || obj.has (camelSpelling name.bytes))
  has2 : jsHasProperty2 obj name = .ok (obj.has name.bytes || obj.has (camelSpelling name.bytes))
  get : jsGetProperty obj name = .ok ((obj.get name.bytes).or (obj.get (camelSpelling name.bytes)))
  unchanged : underscore ∉ name.bytes → camelized name = .ok name

end QjsLws.Native
