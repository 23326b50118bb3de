import QjsLws.Http.Headers
import QjsLws.Misc.ChunkedCoding
import QjsLws.Misc.Outcome
import QjsLws.Misc.Run
import QjsLws.Socket.WriteQueue

/-!
# ServerResponse

Model of the class `ServerResponse` of `lib/lws/response.js` with `buildSetCookie`,
`chunkByteLength` and `writeChunk`. Every call made to the wsi and every change of the headers
is recorded in `log`; whether the wsi is still attached, and what `wsi.respond` throws, is the
parameter `Wsi`.
-/

namespace QjsLws.Http

open QjsLws.Misc
open QjsLws.Socket (WriteProtocol WriteData)

/-- A body chunk: a string, an `ArrayBuffer`, a view of one (typed array, `DataView`), or any
other value, whose `byteLength` is undefined. -/
inductive Chunk where
  | string (text : Text)
  | arrayBuffer (bytes : List UInt8)
  | view (bytes : List UInt8)
  | other
  deriving DecidableEq, Repr

/-- The bytes a chunk stands for. -/
def Chunk.bytes : Chunk → List UInt8
  | .string text => utf8 text
  | .arrayBuffer bytes => bytes
  | .view bytes => bytes
  | .other => []

/-- `chunkByteLength`. -/
def chunkByteLength : Chunk → Option Nat
  | .other => none
  | chunk => some chunk.bytes.length

/-- The chunk as `lwsjs_socket_write` sees it: `JS_GetArrayBuffer` knows no views. -/
def Chunk.writeData : Chunk → WriteData
  | .string text => .string (utf8 text)
  | .arrayBuffer bytes => .arrayBuffer bytes
  | .view _ => .other
  | .other => .other

/-- The options of `buildSetCookie`; `expires` is the text of `toUTCString()`. -/
structure CookieOptions where
  maxAge : Option Int
  domain : Text
  path : Text
  expires : Option Text
  httpOnly : Bool
  secure : Bool
  sameSite : Text
  deriving DecidableEq, Repr

/-- `buildSetCookie`. -/
def buildSetCookie (name value : Text) (opts : CookieOptions) : Text :=
  let field (key value : Text) : List Text := if value = [] then [] else [key ++ value]
  let flag (name : Text) (present : Bool) : List Text := if present then [name] else []
  let maxAge (age : Int) : Text := "Max-Age=".toList ++ (toString (toInt32 age)).toList
  join "; ".toList <|
    [encodeURIComponent name ++ ['='] ++ encodeURIComponent value]
      ++ (opts.maxAge.map maxAge).toList
      ++ field "Domain=".toList opts.domain
      ++ field "Path=".toList opts.path
      ++ (opts.expires.map ("Expires=".toList ++ ·)).toList
      ++ flag "HttpOnly".toList opts.httpOnly
      ++ flag "Secure".toList opts.secure
      ++ field "SameSite=".toList opts.sameSite

/-- What a response does that others can see. `write` is a call of `wsi.write` that was
accepted, `headersChanged` a successful change of the response's headers. The content length
of `respond` is the number passed, with `none` for one that is no natural number. -/
inductive ResponseEvent where
  | headersChanged
  | respond (status : Int) (contentLength : Option (Option Nat))
      (headers : List (Text × HeaderValue))
  | write (bytes : List UInt8) (proto : WriteProtocol)
  deriving DecidableEq, Repr

/-- The answers of the wsi to the calls made to it, numbered in order. -/
structure Wsi where
  attached : Nat → Bool
  respondThrows : Nat → Option JsError

/-- A wsi that stays open and accepts the headers. -/
def Wsi.live : Wsi := ⟨fun _ => true, fun _ => none⟩

/-- The fields of `ServerResponse`; `calls` counts the calls made to the wsi. -/
structure ServerResponse where
  headers : Headers
  status : Int
  ended : Bool
  headersSent : Bool
  chunked : Bool
  calls : Nat
  log : List ResponseEvent
  deriving DecidableEq

/-- `new ServerResponse(wsi)`. -/
def ServerResponse.fresh : ServerResponse :=
  { headers := .empty, status := 200, ended := false, headersSent := false, chunked := false,
    calls := 0, log := [] }

/-- The state a method leaves behind and the exception it throws. -/
abbrev ResponseOutcome := Outcome JsError ServerResponse

namespace ServerResponse

/-- `wsi.write(chunk, proto)`. -/
def wsiWrite (wsi : Wsi) (chunk : Chunk) (proto : WriteProtocol) (s : ServerResponse) :
    ResponseOutcome :=
  let next := { s with calls := s.calls + 1 }
  if !wsi.attached s.calls then
    .threw ⟨"InternalError".toList, "lwsjs_socket_write: s->wsi == NULL".toList⟩ next
  else
    match chunk.writeData with
    | .other => .threw ⟨"TypeError".toList, "wsi.write: expected string or ArrayBuffer".toList⟩ next
    | .string bytes | .arrayBuffer bytes => .done { next with log := s.log ++ [.write bytes proto] }

/-- `writeChunk`. -/
def writeChunk (wsi : Wsi) (chunk : Chunk) (s : ServerResponse) : ResponseOutcome :=
  match chunkByteLength chunk with
  | none => .threw ⟨"TypeError".toList, "cannot read property 'toString' of undefined".toList⟩ s
  | some 0 => .done s
  | some len =>
    (wsiWrite wsi (.string (sizeLine len)) .http s).andThen fun s =>
    (wsiWrite wsi chunk .http s).andThen fun s =>
    wsiWrite wsi (.string crlf) .http s

/-- `wsi.respond(status, contentLength, headers)`. -/
def wsiRespond (wsi : Wsi) (contentLength : Option (Option Nat))
    (headers : List (Text × HeaderValue)) (s : ServerResponse) : ResponseOutcome :=
  let next :=
    { s with calls := s.calls + 1, log := s.log ++ [.respond s.status contentLength headers] }
  if !wsi.attached s.calls then
    .threw ⟨"InternalError".toList, "lwsjs_socket_respond: s->wsi == NULL".toList⟩ next
  else
    match wsi.respondThrows s.calls with
    | some e => .threw e next
    | none => .done next

/-- `#flushHeaders`. -/
def flushHeaders (wsi : Wsi) (s : ServerResponse) : ResponseOutcome :=
  if s.headersSent then .done s
  else
    let length := s.headers.get contentLength
    let object := s.headers.toObject
    let object := if length.isSome then object.filter (·.1 ≠ contentLength) else object
    wsiRespond wsi (length.map number) object { s with headersSent := true }

/-- A call on `#headers` that changes it. -/
def changeHeaders (change : Headers → Except JsError Headers) (s : ServerResponse) :
    ResponseOutcome :=
  match change s.headers with
  | .ok headers => .done { s with headers, log := s.log ++ [.headersChanged] }
  | .error e => .threw e s

/-- `#assertOpen`. -/
def assertOpen (s : ServerResponse) : ResponseOutcome :=
  if s.headersSent then .threw ⟨"Error".toList, "headers already sent".toList⟩ s else .done s

/-- `status`. -/
def setStatus (code : Int) (s : ServerResponse) : ResponseOutcome := .done { s with status := code }

/-- `set`. -/
def set (name value : Text) (s : ServerResponse) : ResponseOutcome :=
  s.assertOpen.andThen (changeHeaders (·.set name value))

/-- `append`. -/
def append (name value : Text) (s : ServerResponse) : ResponseOutcome :=
  s.assertOpen.andThen (changeHeaders (·.append name value))

/-- `removeHeader`. -/
def removeHeader (name : Text) (s : ServerResponse) : ResponseOutcome :=
  s.assertOpen.andThen (changeHeaders (·.delete name))

/-- `type`. -/
def type (value : Text) (s : ServerResponse) : ResponseOutcome := s.set contentType value

/-- `cookie`. -/
def cookie (name value : Text) (opts : CookieOptions) (s : ServerResponse) : ResponseOutcome :=
  s.assertOpen.andThen (changeHeaders (·.append setCookie (buildSetCookie name value opts)))

/-- `clearCookie`. -/
def clearCookie (name : Text) (opts : CookieOptions) (s : ServerResponse) : ResponseOutcome :=
  let epoch : Text := "Thu, 01 Jan 1970 00:00:00 GMT".toList
  s.cookie name [] { opts with expires := some epoch, maxAge := some 0 }

/-- `write`. -/
def write (wsi : Wsi) (chunk : Option Chunk) (s : ServerResponse) : ResponseOutcome :=
  let framed : ResponseOutcome :=
    if !s.headersSent && !s.headers.has contentLength && !s.headers.has transferEncoding then
      changeHeaders (·.set transferEncoding "chunked".toList) { s with chunked := true }
    else .done s
  framed.andThen fun s =>
  (s.flushHeaders wsi).andThen fun s =>
  match chunk with
  | none => .done s
  | some chunk => if s.chunked then s.writeChunk wsi chunk else s.wsiWrite wsi chunk .http

/-- The text of `len` in `end`: `String(0)` without a chunk, else `String(chunkByteLength(chunk))`. -/
def lengthText : Option Chunk → Text
  | none => decimal 0
  | some chunk =>
    match chunkByteLength chunk with
    | some len => decimal len
    | none => "undefined".toList

/-- The last write of `end`. -/
def writeFinal (wsi : Wsi) (chunk : Option Chunk) (s : ServerResponse) : ResponseOutcome :=
  if s.chunked then
    let last : ResponseOutcome :=
      match chunk with
      | some chunk => s.writeChunk wsi chunk
      | none => .done s
    last.andThen (wsiWrite wsi (.string lastChunk) .httpFinal)
  else s.wsiWrite wsi (chunk.getD (.string [])) .httpFinal

/-- `end`. -/
def «end» (wsi : Wsi) (chunk : Option Chunk) (s : ServerResponse) : ResponseOutcome :=
  if s.ended then .done s
  else
    let framed : ResponseOutcome :=
      if !s.headersSent && !s.headers.has contentLength then
        changeHeaders (·.set contentLength (lengthText chunk)) s
      else .done s
    framed.andThen fun s =>
    (s.flushHeaders wsi).andThen fun s =>
    (s.writeFinal wsi chunk).andThen fun s =>
    .done { s with ended := true }

/-- `send` of a value that is no object, or of a buffer; `none` is `null` or `undefined`. -/
def sendChunk (wsi : Wsi) (body : Option Chunk) (s : ServerResponse) : ResponseOutcome :=
  if s.ended then .done s
  else
    match body with
    | none => s.end wsi none
    | some body =>
      let typed : ResponseOutcome :=
        if s.headers.has contentType then .done s
        else
          s.type <| match body with
            | .string _ => "text/html; charset=utf-8".toList
            | _ => "application/octet-stream".toList
      typed.andThen («end» wsi (some body))

/-- `json`. `text` is what `JSON.stringify(data)` throws or returns. -/
def json (wsi : Wsi) (text : Except JsError (Option Text)) (s : ServerResponse) :
    ResponseOutcome :=
  let typed : ResponseOutcome :=
    if s.headers.has contentType then .done s
    else s.type "application/json; charset=utf-8".toList
  typed.andThen fun s =>
  match text with
  | .error e => .threw e s
  | .ok text => s.sendChunk wsi (text.map .string)

/-- The argument of `send`: an object that is no buffer is given by its `JSON.stringify`. -/
inductive SendBody where
  | plain (body : Option Chunk)
  | object (text : Except JsError (Option Text))

/-- `send`. -/
def send (wsi : Wsi) (body : SendBody) (s : ServerResponse) : ResponseOutcome :=
  if s.ended then .done s
  else
    match body with
    | .plain body => s.sendChunk wsi body
    | .object text => s.json wsi text

/-- `redirect(url)` and `redirect(status, url)`. -/
def redirect (wsi : Wsi) (status : Option Int) (url : Text) (s : ServerResponse) :
    ResponseOutcome :=
  (s.setStatus (status.getD 302)).andThen fun s =>
  (s.set "location".toList url).andThen («end» wsi none)

end ServerResponse

open ServerResponse in
/-- A call of one of the methods. -/
inductive ResponseCall where
  | status (code : Int)
  | set (name value : Text)
  | append (name value : Text)
  | removeHeader (name : Text)
  | type (value : Text)
  | cookie (name value : Text) (opts : CookieOptions)
  | write (chunk : Option Chunk)
  | «end» (chunk : Option Chunk)
  | send (body : SendBody)
  | json (text : Except JsError (Option Text))
  | redirect (status : Option Int) (url : Text)

/-- The method that a call runs. -/
def ServerResponse.call (wsi : Wsi) (s : ServerResponse) : ResponseCall → ResponseOutcome
  | .status code => s.setStatus code
  | .set name value => s.set name value
  | .append name value => s.append name value
  | .removeHeader name => s.removeHeader name
  | .type value => s.type value
  | .cookie name value opts => s.cookie name value opts
  | .write chunk => s.write wsi chunk
  | .end chunk => s.end wsi chunk
  | .send body => s.send wsi body
  | .json text => s.json wsi text
  | .redirect status url => s.redirect wsi status url

/-- A caller goes on after a call that threw: the other handlers of the chain do. -/
def responseStep (wsi : Wsi) (s : ServerResponse) (call : ResponseCall) : ServerResponse :=
  (s.call wsi call).state

end QjsLws.Http
