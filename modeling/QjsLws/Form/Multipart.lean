import QjsLws.Misc.Cut
import QjsLws.Misc.Utf8

/-!
# Multipart form data

The encoder `MultipartFormData` with `quotedString` and `File` (`lib/lws/multipart.js`), and a reader of
`multipart/form-data`. The random digits of the boundary are a parameter.
-/

namespace QjsLws.Form

open QjsLws.Misc

/-! ## The encoder -/

/-- What a stream or the encoder yields. -/
inductive StreamChunk where
  | text (t : Text)
  | bytes (b : List UInt8)
  deriving DecidableEq, Repr

/-- The bytes of a chunk. -/
def StreamChunk.utf8 : StreamChunk → List UInt8
  | .text t => Misc.utf8 t
  | .bytes b => b

/-- The class `File`: the chunks of its stream, its name and its type. -/
structure File where
  stream : List StreamChunk
  name : Text
  type : Text
  deriving DecidableEq, Repr

/-- A value of the `fields` object. -/
inductive FieldInput where
  | string (t : Text)
  | file (f : File)
  deriving DecidableEq, Repr

/-- The bytes of a value. -/
def FieldInput.content : FieldInput → List UInt8
  | .string t => utf8 t
  | .file f => f.stream.flatMap StreamChunk.utf8

/-- What `randomBoundary` returns. -/
structure RandomBoundary where
  digits : Text
  hex : ∀ c ∈ digits, c ∈ "0123456789abcdef".toList
  length : digits.length = 32

/-- `boundary`. -/
def RandomBoundary.boundary (random : RandomBoundary) : Text :=
  "----FormBoundary".toList ++ random.digits

/-- `/[\r\n]/.test(s)`. -/
def breaksLine (s : Text) : Bool := s.any fun c => c = '\r' || c = '\n'

/-- `s.replace(/\\/g, '\\\\').replace(/"/g, '\\"')`. -/
def escapeQuoted (s : Text) : Text :=
  (s.flatMap fun c => if c = '\\' then ['\\', '\\'] else [c]).flatMap fun c =>
    if c = '"' then ['\\', '"'] else [c]

/-- `quotedString`. -/
def quotedString (s label : Text) : Except JsError Text :=
  if breaksLine s then
    .error ⟨"TypeError".toList,
      "MultipartFormData: ".toList ++ label ++ " must not contain CR/LF".toList⟩
  else .ok (escapeQuoted s)

/-- `value.type || 'application/octet-stream'`. -/
def File.contentType (f : File) : Text :=
  if f.type = [] then "application/octet-stream".toList else f.type

/-- The header lines of a field, up to the empty one. -/
def fieldHead (name : Text) : FieldInput → Except JsError Text
  | .file f => do
    let quotedName ← quotedString name "field name".toList
    let quotedFile ← quotedString f.name "file name".toList
    return "Content-Disposition: form-data; name=\"".toList ++ quotedName ++ "\"; filename=\"".toList ++
      quotedFile ++ "\"\r\nContent-Type: ".toList ++ f.contentType ++ "\r\n\r\n".toList
  | .string _ => do
    let quotedName ← quotedString name "field name".toList
    return "Content-Disposition: form-data; name=\"".toList ++ quotedName ++ "\"\r\n\r\n".toList

/-- The chunks of a value. -/
def FieldInput.chunks : FieldInput → List StreamChunk
  | .string t => [.text t]
  | .file f => f.stream

/-- `generate()`: what is yielded, and what is thrown. The fields stand in their order of enumeration. -/
def generate (boundary : Text) : List (Text × FieldInput) → List StreamChunk × Option JsError
  | [] => ([.text ("--".toList ++ boundary ++ "--\r\n".toList)], none)
  | (name, value) :: fields =>
    let first := StreamChunk.text ("--".toList ++ boundary ++ "\r\n".toList)
    match fieldHead name value with
    | .error e => ([first], some e)
    | .ok head =>
      let (later, thrown) := generate boundary fields
      (first :: .text head :: value.chunks ++ .text "\r\n".toList :: later, thrown)

/-- The bytes of the stream, where it ends. -/
def multipart (random : RandomBoundary) (fields : List (Text × FieldInput)) :
    Except JsError (List UInt8) :=
  match generate random.boundary fields with
  | (_, some e) => .error e
  | (chunks, none) => .ok (chunks.flatMap StreamChunk.utf8)

/-! ## The reader

Its parts are separated by delimiters: a line break, two dashes and the boundary. The line break in front
of a delimiter belongs to it, also the one that ends the empty line after the headers. -/

/-- A line break. -/
def crlf : List UInt8 := [13, 10]

/-- The delimiter. -/
def delimiter (boundary : Text) : List UInt8 := crlf ++ utf8 ("--".toList ++ boundary)

/-- A part: its name, file name, content type and content. -/
structure MimePart where
  name : Text
  fileName : Option Text
  type : Option Text
  content : List UInt8
  deriving DecidableEq, Repr

/-- The lines up to the first empty one, each ended by a line break, and what follows them. -/
def readLines : Nat → List UInt8 → Option (List (List UInt8) × List UInt8)
  | 0, _ => none
  | fuel + 1, bytes =>
    (cut crlf bytes).bind fun (line, rest) =>
      if line = [] then some ([], rest)
      else (readLines fuel rest).map fun (lines, content) => (line :: lines, content)

/-- The name of a header, in lower case, and its value after the colon and a space. -/
def readHeader (line : Text) : Text × Text :=
  let value := (line.dropWhile (· ≠ ':')).drop 1
  (asciiLower (line.takeWhile (· ≠ ':')), if value.head? = some ' ' then value.drop 1 else value)

/-- A quoted string after its first quote, and what follows it; a backslash quotes the next character. -/
def readQuoted : Text → Option (Text × Text)
  | [] => none
  | '\\' :: c :: rest => (readQuoted rest).map fun (t, after) => (c :: t, after)
  | c :: rest =>
    if c = '"' then some ([], rest) else (readQuoted rest).map fun (t, after) => (c :: t, after)

/-- Parameters, each after a semicolon and a space. -/
def readParams : Nat → Text → Option (List (Text × Text))
  | _, [] => some []
  | fuel + 1, ';' :: ' ' :: t =>
    match t.dropWhile (· ≠ '=') with
    | '=' :: '"' :: rest =>
      (readQuoted rest).bind fun (value, after) =>
        (readParams fuel after).map ((t.takeWhile (· ≠ '='), value) :: ·)
    | _ => none
  | _, _ => none

/-- The parameters of a disposition `form-data`. -/
def readDisposition (value : Text) : Option (List (Text × Text)) :=
  let kind := "form-data".toList
  if kind.isPrefixOf value then readParams value.length (value.drop kind.length) else none

/-- The text of a header line. Outside a line break neither CR nor LF may stand in it. -/
def readLine (line : List UInt8) : Option Text :=
  (decodeUtf8 line).toOption.filter fun t => !breaksLine t

/-- A part after its delimiter. -/
def readPart (segment : List UInt8) : Option MimePart :=
  let segment := segment.dropWhile fun b => b = 32 || b = 9
  if crlf.isPrefixOf segment then
    (readLines segment.length (segment.drop 2)).bind fun (lines, content) =>
      (lines.mapM readLine).bind fun lines =>
        let headers := lines.map readHeader
        let header (name : Text) : Option Text := (headers.find? (·.1 = name)).map (·.2)
        (header "content-disposition".toList).bind fun disposition =>
          (readDisposition disposition).bind fun params =>
            let param (name : Text) : Option Text := (params.find? (·.1 = name)).map (·.2)
            (param "name".toList).map fun name =>
              ⟨name, param "filename".toList, header "content-type".toList, content⟩
  else none

/-- The parts after a delimiter, up to the closing one. -/
def readParts (boundary : Text) : Nat → List UInt8 → Option (List MimePart)
  | 0, _ => none
  | fuel + 1, bytes =>
    if [45, 45].isPrefixOf bytes then some []
    else
      (cut (delimiter boundary) bytes).bind fun (segment, rest) =>
        (readPart segment).bind fun part => (readParts boundary fuel rest).map (part :: ·)

/-- The parts of a body, which may begin with a delimiter. What stands before the first one is dropped. -/
def readMultipart (boundary : Text) (body : List UInt8) : Option (List MimePart) :=
  (cut (delimiter boundary) (crlf ++ body)).bind fun (_, rest) =>
    readParts boundary body.length rest

/-! ## The round trip -/

/-- The part that a field is to come back as. -/
def partOf (name : Text) (value : FieldInput) : MimePart :=
  match value with
  | .string t => ⟨name, none, none, utf8 t⟩
  | .file f => ⟨name, some f.name, some f.contentType, value.content⟩

/-- A name, file name or content type of the field contains a CR or LF. -/
def Breaks (name : Text) : FieldInput → Prop
  | .string _ => breaksLine name = true
  | .file f => breaksLine name = true ∨ breaksLine f.name = true ∨ breaksLine f.type = true

/-- Encoding fails because of a line break, or the body gives back the fields. -/
def RoundTrips (random : RandomBoundary) (fields : List (Text × FieldInput)) : Prop :=
  ((∃ e, multipart random fields = .error e) ∧ ∃ field ∈ fields, Breaks field.1 field.2) ∨
    ∃ body, multipart random fields = .ok body ∧
      readMultipart random.boundary body = some (fields.map fun field => partOf field.1 field.2)

/-- No line of a content begins with the dashes and the boundary. -/
def Undelimited (random : RandomBoundary) (fields : List (Text × FieldInput)) : Prop :=
  ∀ field ∈ fields, ¬delimiter random.boundary <:+: crlf ++ field.2.content

/-- A name or a file name is rejected. -/
def Rejected (fields : List (Text × FieldInput)) : Prop :=
  ∃ field ∈ fields, breaksLine field.1 = true ∨ ∃ f, field.2 = .file f ∧ breaksLine f.name = true

end QjsLws.Form
