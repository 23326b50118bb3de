import Mathlib.Data.List.Sort
import QjsLws.Misc.Assoc
import QjsLws.Misc.Text

/-!
# Headers

Model of the class `Headers` of `lib/lws/headers.js`: `normalizeName`, `normalizeValue`, the
operations on `#map`, what enumerates it, and the constructor.
-/

namespace QjsLws.Http

open QjsLws.Misc

/-- The characters of a header name, letters in either case. -/
def isTokenChar (c : Char) : Bool := c.isAlphanum || "-#$%&'*+.^_`|~!".toList.contains c

/-- `normalizeName`. -/
def normalizeName (name : Text) : Except JsError Text :=
  if name.all isTokenChar ∧ name ≠ [] then .ok (asciiLower name)
  else
    .error ⟨"TypeError".toList,
      "Invalid character in header field name: \"".toList ++ name ++ "\"".toList⟩

/-- `HTTP_WHITESPACE`. -/
def isHttpWhitespace (c : Char) : Bool := ['\t', '\n', '\r', '\x0c', ' '].contains c

/-- The characters that `normalizeValue` rejects. -/
def isForbiddenInValue (c : Char) : Bool := ['\x00', '\r', '\n'].contains c

/-- `normalizeValue`. -/
def normalizeValue (value : Text) : Except JsError Text :=
  let value := strip isHttpWhitespace value
  if value.any isForbiddenInValue then
    .error ⟨"TypeError".toList,
      "Invalid character in header field value: \"".toList ++ value ++ "\"".toList⟩
  else .ok value

/-- What `#map` holds under a name: a string, or the array kept for `set-cookie`. -/
inductive HeaderValue where
  | single (value : Text)
  | list (values : List Text)
  deriving DecidableEq, Repr

/-- The class `Headers`: `#map`, its names in the order they were added. -/
structure Headers where
  map : Assoc Text HeaderValue
  deriving DecidableEq

/-- Header names the response classes look up. They are normalized already. -/
def contentLength : Text := "content-length".toList

@[inherit_doc contentLength]
def transferEncoding : Text := "transfer-encoding".toList

@[inherit_doc contentLength]
def contentType : Text := "content-type".toList

@[inherit_doc contentLength]
def setCookie : Text := "set-cookie".toList

namespace Headers

/-- `new Headers()`. -/
def empty : Headers := ⟨.empty⟩

/-- `Headers.append`. -/
def append (h : Headers) (name value : Text) : Except JsError Headers := do
  let name ← normalizeName name
  let value ← normalizeValue value
  if name = setCookie then
    return ⟨h.map.set name (.list (match h.map.get name with
      | some (.list cur) => cur ++ [value]
      | some (.single cur) => [cur, value]
      | none => [value]))⟩
  else
    return ⟨h.map.set name (.single (match h.map.get name with
      | some (.single []) | none => value
      | some (.single old) => old ++ ", ".toList ++ value
      | some (.list old) => join [','] old ++ ", ".toList ++ value))⟩

/-- `Headers.set`. -/
def set (h : Headers) (name value : Text) : Except JsError Headers := do
  let name ← normalizeName name
  let value ← normalizeValue value
  return ⟨h.map.set name (if name = setCookie then .list [value] else .single value)⟩

/-- `Headers.delete`. -/
def delete (h : Headers) (name : Text) : Except JsError Headers := do
  return ⟨h.map.erase (← normalizeName name)⟩

/-- `Headers.has` of a normalized name. -/
def has (h : Headers) (name : Text) : Bool := h.map.has name

/-- `Headers.get` of a normalized name. -/
def get (h : Headers) (name : Text) : Option Text :=
  (h.map.get name).map fun
    | .single value => value
    | .list values => join ", ".toList values

/-- `Headers.get`. -/
def lookup (h : Headers) (name : Text) : Except JsError (Option Text) := do
  return h.get (← normalizeName name)

/-- `Headers.getSetCookie`. -/
def getSetCookie (h : Headers) : List Text :=
  match h.map.get setCookie with
  | none => []
  | some (.list values) => values
  | some (.single value) => [value]

/-- `Headers.toObject`. Assigning `out.__proto__` adds no property. -/
def toObject (h : Headers) : List (Text × HeaderValue) :=
  h.map.entries.filter fun e => e.1 ≠ "__proto__".toList

end Headers

/-! ## Enumeration

The host enumerates names that are array indices before the others; here all names stand in the
order of addition. -/

/-- The values that are enumerated one by one. -/
def HeaderValue.values : HeaderValue → List Text
  | .single value => [value]
  | .list values => values

/-- One pair for each value. -/
def pairsOf (entries : List (Text × HeaderValue)) : List (Text × Text) :=
  entries.flatMap fun e => e.2.values.map (e.1, ·)

/-- The order of `sort()`. The characters of a name are its code units. -/
def nameOrder : Text → Text → Prop
  | [], _ => True
  | _ :: _, [] => False
  | c :: a, d :: b => c.toNat < d.toNat ∨ c = d ∧ nameOrder a b

instance decidableNameOrder : DecidableRel nameOrder
  | [], _ => .isTrue trivial
  | _ :: _, [] => .isFalse id
  | c :: a, d :: b =>
    have := decidableNameOrder a b
    inferInstanceAs (Decidable (c.toNat < d.toNat ∨ c = d ∧ nameOrder a b))

namespace Headers

/-- The arguments that `Headers.forEach` calls its callback with. -/
def forEach (h : Headers) : List (Text × Text) := pairsOf h.map.entries

/-- `Headers.keys`. -/
def keys (h : Headers) : List Text := h.map.keys.insertionSort nameOrder

/-- `Headers.values`. -/
def values (h : Headers) : List Text :=
  h.keys.flatMap fun name => (h.map.get name).elim [] HeaderValue.values

/-- `Headers.entries`. -/
def entries (h : Headers) : List (Text × Text) :=
  h.keys.flatMap fun name => ((h.map.get name).elim [] HeaderValue.values).map (name, ·)

end Headers

/-! ## The constructor -/

/-- The argument of `new Headers`: none, another object of the class, an array of arrays, the own
properties of another object, or a value that is no object. -/
inductive HeadersInit where
  | absent
  | headers (h : Headers)
  | pairs (list : List (List Text))
  | object (entries : List (Text × HeaderValue))
  | invalid

namespace Headers

/-- `append` for each pair. -/
def appendAll (h : Headers) : List (Text × Text) → Except JsError Headers
  | [] => .ok h
  | (name, value) :: rest => do (← h.append name value).appendAll rest

/-- `append` for each array of two. -/
def appendPairs (h : Headers) : List (List Text) → Except JsError Headers
  | [] => .ok h
  | [name, value] :: rest => do (← h.append name value).appendPairs rest
  | header :: _ =>
    .error ⟨"TypeError".toList,
      "Expected name/value pair to be length 2, found".toList ++ decimal header.length⟩

/-- `append` of the values of a property, inside `try`. -/
def appendCaught (h : Headers) (name : Text) : List Text → Headers
  | [] => h
  | value :: rest =>
    match h.append name value with
    | .ok h => h.appendCaught name rest
    | .error _ => h

/-- `append` for each property. -/
def appendObject (h : Headers) (entries : List (Text × HeaderValue)) : Headers :=
  entries.foldl (fun h e => h.appendCaught e.1 e.2.values) h

/-- `new Headers(init)`. -/
def construct : HeadersInit → Except JsError Headers
  | .absent => .ok empty
  | .headers h => empty.appendAll h.forEach
  | .pairs list => empty.appendPairs list
  | .object entries => .ok (empty.appendObject entries)
  | .invalid => .error ⟨"TypeError".toList, "Headers constructor: invalid init type".toList⟩

end Headers

/-- A call that changes a `Headers` object. -/
inductive HeaderCall where
  | append (name value : Text)
  | set (name value : Text)
  | delete (name : Text)
  deriving DecidableEq, Repr

/-- The method that a call runs. -/
def Headers.call (h : Headers) : HeaderCall → Except JsError Headers
  | .append name value => h.append name value
  | .set name value => h.set name value
  | .delete name => h.delete name

/-- One call; a call that throws has changed nothing, and the caller goes on. -/
def headerStep (h : Headers) (call : HeaderCall) : Headers :=
  match h.call call with
  | .ok h => h
  | .error _ => h

/-! ## What a `Headers` object holds -/

/-- A value without the characters that `normalizeValue` rejects. -/
def Storable (value : Text) : Prop := ∀ c ∈ value, isForbiddenInValue c = false

/-- A value as the class stores it: the array is kept for `set-cookie`, and only there. -/
def HeaderValue.Valid (name : Text) : HeaderValue → Prop
  | .single value => name ≠ setCookie ∧ Storable value
  | .list values => name = setCookie ∧ values ≠ [] ∧ ∀ value ∈ values, Storable value

/-- Every name is normalized and every value fits its name. -/
def Headers.Valid (h : Headers) : Prop :=
  ∀ e ∈ h.map.entries, normalizeName e.1 = .ok e.1 ∧ e.2.Valid e.1

theorem toLower_isTokenChar {c : Char} (token : isTokenChar c = true) :
    isTokenChar c.toLower = true := by
  by_cases ascii : c.toNat < 128
  · exact forall_ascii (P := fun c => isTokenChar c = true → isTokenChar c.toLower = true)
      (by decide) ascii token
  · rwa [toLower_of_not_ascii ascii]

theorem normalizeName_idem {name normal : Text} (read : normalizeName name = .ok normal) :
    normalizeName normal = .ok normal := by
  unfold normalizeName at read
  split at read
  · rename_i fine
    obtain rfl : asciiLower name = normal := by simpa using read
    have tokens : (asciiLower name).all isTokenChar = true := by
      rw [asciiLower, List.all_map, List.all_eq_true]
      exact fun c member => toLower_isTokenChar (List.all_eq_true.mp fine.1 c member)
    rw [normalizeName, if_pos ⟨tokens, by simpa [asciiLower] using fine.2⟩, asciiLower, asciiLower,
      List.map_map]
    exact congrArg Except.ok (List.map_congr_left fun c _ => toLower_toLower c)
  · cases read

theorem storable_of_normalizeValue {value normal : Text}
    (read : normalizeValue value = .ok normal) : Storable normal := by
  unfold normalizeValue at read
  dsimp only at read
  split at read
  · cases read
  · rename_i clean
    obtain rfl : strip isHttpWhitespace value = normal := by simpa using read
    simpa [Storable] using clean

theorem eq_strip_of_normalizeValue {value normal : Text} (read : normalizeValue value = .ok normal) :
    normal = strip isHttpWhitespace value := by
  unfold normalizeValue at read
  dsimp only at read
  split at read
  · cases read
  · exact (Except.ok.inj read).symm

theorem normalizeValue_of_storable {value : Text} (storable : Storable value) :
    normalizeValue value = .ok (strip isHttpWhitespace value) := by
  have clean : (strip isHttpWhitespace value).any isForbiddenInValue = false := by
    rw [List.any_eq_false]
    intro c member
    simp [storable c ((isInfix_strip _ value).subset member)]
  simp [normalizeValue, clean]

theorem Storable.append {old value : Text} (first : Storable old) (second : Storable value) :
    Storable (old ++ ", ".toList ++ value) := by
  intro c member
  rw [List.mem_append, List.mem_append] at member
  rcases member with (front | between) | back
  · exact first c front
  · exact forall_mem_of_all (P := fun c => isForbiddenInValue c = false) (by decide) c between
  · exact second c back

namespace Headers

theorem has_eq_false {h : Headers} {name : Text} : h.has name = false ↔ h.map.get name = none := by
  rw [Headers.has, Assoc.has, Option.isSome_eq_false_iff, Option.isNone_iff_eq_none]

theorem valid_empty : Headers.empty.Valid := by
  intro e member
  cases member

theorem Valid.set {h : Headers} (valid : h.Valid) {name : Text} {value : HeaderValue}
    (normal : normalizeName name = .ok name) (fits : value.Valid name) :
    Headers.Valid ⟨h.map.set name value⟩ := by
  intro e member
  rcases Assoc.mem_put member with rfl | old
  · exact ⟨normal, fits⟩
  · exact valid e old

/-- `append` keeps the names and values valid. -/
theorem Valid.append {h h' : Headers} (valid : h.Valid) {name value : Text}
    (appended : h.append name value = .ok h') : h'.Valid := by
  unfold Headers.append at appended
  cases read : normalizeName name with
  | error e => simp [read, bind, Except.bind] at appended
  | ok name =>
    cases found : normalizeValue value with
    | error e => simp [read, found, bind, Except.bind] at appended
    | ok value =>
      have normal := normalizeName_idem read
      have storable := storable_of_normalizeValue found
      have held : ∀ v, h.map.get name = some v → v.Valid name := fun v here =>
        (valid (name, v) (Assoc.mem_of_find here)).2
      simp only [read, found, bind, Except.bind, pure, Except.pure] at appended
      split at appended
      · rename_i cookie
        obtain rfl := Except.ok.inj appended
        apply valid.set normal
        refine ⟨cookie, ?_, ?_⟩
        · split <;> simp
        · split
          · rename_i cur here
            intro v member
            rcases List.mem_append.mp member with old | new
            · exact (held _ here).2.2 v old
            · simpa [List.mem_singleton.mp new] using storable
          · rename_i cur here
            exact absurd cookie (held _ here).1
          · simpa using storable
      · rename_i plain
        obtain rfl := Except.ok.inj appended
        apply valid.set normal
        refine ⟨plain, ?_⟩
        split
        · exact storable
        · exact storable
        · rename_i old _ here
          exact (held _ here).2.append storable
        · rename_i old here
          exact absurd (held _ here).1 plain

/-- Every call keeps the names and values valid. -/
theorem Valid.call {h h' : Headers} (valid : h.Valid) {call : HeaderCall}
    (called : h.call call = .ok h') : h'.Valid := by
  cases call with
  | append name value => exact valid.append called
  | set name value =>
    change h.set name value = .ok h' at called
    unfold Headers.set at called
    cases read : normalizeName name with
    | error e => simp [read, bind, Except.bind] at called
    | ok name =>
      cases found : normalizeValue value with
      | error e => simp [read, found, bind, Except.bind] at called
      | ok value =>
        simp only [read, found, bind, Except.bind, pure, Except.pure, Except.ok.injEq] at called
        subst called
        have storable := storable_of_normalizeValue found
        apply valid.set (normalizeName_idem read)
        split
        · exact ⟨‹_›, List.cons_ne_nil _ _, by simpa using storable⟩
        · exact ⟨‹_›, storable⟩
  | delete name =>
    change h.delete name = .ok h' at called
    unfold Headers.delete at called
    cases read : normalizeName name with
    | error e => simp [read, bind, Except.bind] at called
    | ok name =>
      simp only [read, bind, Except.bind, pure, Except.pure, Except.ok.injEq] at called
      subst called
      exact fun e member => valid e (List.mem_of_mem_filter member)

theorem Valid.step {h : Headers} (valid : h.Valid) (call : HeaderCall) :
    (headerStep h call).Valid := by
  unfold headerStep
  split
  · exact valid.call ‹_›
  · exact valid

end Headers

end QjsLws.Http
