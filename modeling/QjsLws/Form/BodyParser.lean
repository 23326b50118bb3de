import QjsLws.Form.Decoders
import QjsLws.Misc.Number

/-!
# Body parsers

The middlewares `json`, `urlencoded`, `raw` and `text` (`lib/lws/middleware.js`) with `readBody` and
`readText` of a request (`lib/lws/request.js`), on a request whose body has arrived. `Engine` is what they
use of the host language; `J` is the type of the values of JSON.
-/

namespace QjsLws.Form

open QjsLws.Misc

/-- `JSON.parse`, and the message of the `URIError` that the decoding of a form ends with. -/
structure Engine (J : Type) where
  jsonParse : Text → Except JsError J
  uriMessage : Text → Text

/-- A limit: the most bytes it allows, `⊤` where no length exceeds it, and its text. -/
structure Limit where
  most : WithTop ℤ
  text : Text

/-- The options of the four; a `type` is the test of its regular expression. -/
structure ParserOptions where
  limit : Option Limit
  type : Option (Text → Bool)
  strict : Option Bool

/-- `1 << 20`. -/
def defaultLimit : Limit := ⟨((1048576 : ℤ) : WithTop ℤ), "1048576".toList⟩

/-- What `req.body` is set to. -/
inductive BodyValue (J : Type) where
  | null
  | json (value : J)
  | fields (out : Fields)
  | buffer (bytes : List UInt8)
  | text (t : Text)

/-- `res.status(status).type(type).end(text)`. -/
structure Answer where
  status : Nat
  type : Text
  text : Text
  deriving DecidableEq, Repr

/-- How a promise ends. `next()` returns that of an `async` function and does not throw. -/
inductive Settled where
  | resolved
  | rejected (err : JsError)
  deriving DecidableEq, Repr

/-- What a middleware does with a request: its answer, what it sets `req.body` to, how often it calls
`next()`, and how its own promise ends. -/
structure Reaction (J : Type) where
  answer : Option Answer
  body : Option (BodyValue J)
  nexts : Nat
  promise : Settled

variable {J : Type}

/-- `return next()`. -/
def goOn (later : Settled) (body : Option (BodyValue J)) : Reaction J := ⟨none, body, 1, later⟩

/-- `res.status(status).type('text/plain').end(text); return`. -/
def refuse (status : Nat) (text : Text) : Reaction J :=
  ⟨some ⟨status, "text/plain".toList, text⟩, none, 0, .resolved⟩

/-- `/limit/.test(e.message)`. -/
def saysLimit (message : Text) : Bool := message.tails.any ("limit".toList.isPrefixOf ·)

/-- `readBody`. -/
def readBody (limit : Limit) (body : List UInt8) : Except JsError (List UInt8) :=
  if limit.most < (body.length : ℤ) then
    .error ⟨"TypeError".toList,
      "request body exceeds limit of ".toList ++ limit.text ++ " bytes".toList⟩
  else .ok body

/-- `readText`. -/
def readText (limit : Limit) (body : List UInt8) : Except JsError Text :=
  (readBody limit body).bind Url.toString

/-! ## The parsers -/

/-- A parser: a request of another type goes on, the `try` block gives the body, `catch` an answer. -/
def bodyParser (type : Text → Bool) (block : Except JsError (BodyValue J)) (caught : JsError → Reaction J)
    (contentType : Text) (later : Settled) : Reaction J :=
  if !type contentType then goOn later none
  else
    match block with
    | .ok value => goOn later (some value)
    | .error e => caught e

/-- The `catch` block of `json` and `urlencoded`. -/
def byMessage (label : Text) (e : JsError) : Reaction J :=
  if saysLimit e.message then refuse 413 "Payload Too Large".toList
  else refuse 400 (label ++ e.message)

/-- The `catch` block of `raw` and `text`. -/
def always413 (_ : JsError) : Reaction J := refuse 413 "Payload Too Large".toList

/-- `/^application\/(?:.+\+)?json/i`. -/
def isJson (contentType : Text) : Bool :=
  let lower := contentType.map Char.toLower
  let rest := lower.drop "application/".length
  "application/".toList.isPrefixOf lower && ("json".toList.isPrefixOf rest ||
    (List.range rest.length).any fun i => i ≠ 0 &&
      (rest.take i).all (fun c => !App.isLineTerminator c) && "+json".toList.isPrefixOf (rest.drop i))

/-- `/^text\//i`. -/
def isText (contentType : Text) : Bool := "text/".toList.isPrefixOf (contentType.map Char.toLower)

/-- The first character that is no white space is `{` or `[`. -/
def startsStrict (text : Text) : Bool :=
  match (text.dropWhile isStrWhiteSpace).head? with
  | some c => c = '{' || c = '['
  | none => false

/-- The `try` block of `json`. -/
def jsonBlock (engine : Engine J) (opts : ParserOptions) (body : List UInt8) :
    Except JsError (BodyValue J) :=
  (readText (opts.limit.getD defaultLimit) body).bind fun text =>
    if text = [] then .ok .null
    else if opts.strict ≠ some false ∧ !startsStrict text then
      .error ⟨"SyntaxError".toList, "strict JSON: body must start with \x7b or [".toList⟩
    else (engine.jsonParse text).map .json

/-- `json(opts)`. -/
def jsonBody (engine : Engine J) (opts : ParserOptions) (contentType : Text) (body : List UInt8)
    (later : Settled) : Reaction J :=
  bodyParser (opts.type.getD isJson) (jsonBlock engine opts body) (byMessage "Bad JSON: ".toList)
    contentType later

/-- The `try` block of `urlencoded`. -/
def urlencodedBlock (engine : Engine J) (opts : ParserOptions) (body : List UInt8) :
    Except JsError (BodyValue J) :=
  (readText (opts.limit.getD defaultLimit) body).bind fun text =>
    if text = [] then .ok (.fields .empty)
    else
      match collectFields addField .empty text with
      | some out => .ok (.fields out)
      | none => .error ⟨"URIError".toList, engine.uriMessage text⟩

/-- `urlencoded(opts)`. -/
def urlencodedBody (engine : Engine J) (opts : ParserOptions) (contentType : Text) (body : List UInt8)
    (later : Settled) : Reaction J :=
  bodyParser (opts.type.getD isForm) (urlencodedBlock engine opts body)
    (byMessage "Bad form data: ".toList) contentType later

/-- `raw(opts)`. -/
def rawBody (opts : ParserOptions) (contentType : Text) (body : List UInt8) (later : Settled) :
    Reaction J :=
  bodyParser (opts.type.getD fun _ => true)
    ((readBody (opts.limit.getD defaultLimit) body).map .buffer) always413 contentType later

/-- `text(opts)`. -/
def textBody (opts : ParserOptions) (contentType : Text) (body : List UInt8) (later : Settled) :
    Reaction J :=
  bodyParser (opts.type.getD isText) ((readText (opts.limit.getD defaultLimit) body).map .text) always413
    contentType later

/-- The four. -/
inductive Parser where
  | json
  | urlencoded
  | raw
  | text
  deriving DecidableEq, Repr

/-- The middleware that a call returns. -/
def Parser.handle (engine : Engine J) (opts : ParserOptions) : Parser → Text → List UInt8 → Settled →
    Reaction J
  | .json => jsonBody engine opts
  | .urlencoded => urlencodedBody engine opts
  | .raw => rawBody opts
  | .text => textBody opts

/-- The test of the content type. -/
def Parser.type (opts : ParserOptions) : Parser → Text → Bool
  | .json => opts.type.getD isJson
  | .urlencoded => opts.type.getD isForm
  | .raw => opts.type.getD fun _ => true
  | .text => opts.type.getD isText

/-! ## What a parser is for -/

/-- The value of the fields of a form, in order. -/
def fieldsObject (params : List Url.Param) : Fields :=
  params.foldl (fun out field => addField out field.1 field.2) .empty

/-- The decoded body; `none` for one that cannot be decoded. -/
def Parser.decoded (engine : Engine J) (opts : ParserOptions) (body : List UInt8) :
    Parser → Option (BodyValue J)
  | .raw => some (.buffer body)
  | .text => (decodeUtf8 body).toOption.map .text
  | .urlencoded => (decodeUtf8 body).toOption.bind fun text =>
    (((split '&' text).filter (· ≠ [])).mapM decodePart).map (.fields ∘ fieldsObject)
  | .json => (decodeUtf8 body).toOption.bind fun text =>
    if text = [] then some .null
    else if opts.strict ≠ some false ∧ !startsStrict text then none
    else (engine.jsonParse text).toOption.map .json

/-- The body is longer than the limit. -/
def Exceeds (opts : ParserOptions) (body : List UInt8) : Prop :=
  (opts.limit.getD defaultLimit).most < (body.length : ℤ)

/-- The reaction to a body: 413 where it is too long, 400 where it cannot be decoded, and otherwise one
call of `next()`, whose failure is no failure of the parser. -/
structure Meets (tooLong : Prop) (decoded : Option (BodyValue J)) (later : Settled) (r : Reaction J) :
    Prop where
  tooLarge : (∃ a, r.answer = some a ∧ a.status = 413) ↔ tooLong
  malformed : ¬tooLong → ((∃ a, r.answer = some a ∧ a.status = 400) ↔ decoded = none)
  parsed : ¬tooLong → ∀ value, decoded = some value →
    r.answer = none ∧ r.body = some value ∧ r.nexts = 1
  apart : r.nexts ≠ 0 → r.answer = none ∧ r.promise = later

/-- No failure to decode is taken for a body that is too long: with `text` there is none, and with `json`
and `urlencoded` the message of `JSON.parse` and of the `URIError` does not say `limit`. -/
def Parser.Honest (engine : Engine J) (opts : ParserOptions) (body : List UInt8) : Parser → Prop
  | .raw => True
  | .text => (decodeUtf8 body).toOption ≠ none
  | .urlencoded => ∀ text, (decodeUtf8 body).toOption = some text →
    ((split '&' text).filter (· ≠ [])).mapM decodePart = none →
      saysLimit (engine.uriMessage text) = false
  | .json => ∀ text e, (decodeUtf8 body).toOption = some text → text ≠ [] →
    (opts.strict ≠ some false → startsStrict text = true) → engine.jsonParse text = .error e →
      saysLimit e.message = false

end QjsLws.Form
