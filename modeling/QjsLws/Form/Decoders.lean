import QjsLws.App.Path
import QjsLws.Url.SearchParams
import QjsLws.Misc.Multimap

/-!
# The decoders of form data

The four places that read `application/x-www-form-urlencoded` text: `URLSearchParams`
(`lib/lws/url.js`), the query of a `ServerRequest` (`lib/lws/request.js`), `Body.formData`
(`lib/lws/body.js`) and the `urlencoded` middleware (`lib/lws/middleware.js`).
-/

namespace QjsLws.Form

open QjsLws.Misc

/-! ## `URLSearchParams` -/

/-- The list of `new URLSearchParams(init)` for a string. -/
def searchParams (init : Text) : Except JsError (List Url.Param) :=
  Url.parseFormURLEncoded (if init.head? = some '?' then init.drop 1 else init)

/-! ## The loop of the others -/

/-- `decodeURIComponent(t.replace(/\+/g, ' '))`. -/
def decodeField (t : Text) : Option Text := App.decodeURIComponent (Url.spaceForPlus t)

/-- The name and the value of one part. -/
def decodePart (part : Text) : Option Url.Param :=
  (decodeField (part.takeWhile (· ≠ '='))).bind fun name =>
    (if '=' ∈ part then decodeField ((part.dropWhile (· ≠ '=')).drop 1) else some []).map
      (name, ·)

/-- The loop over `text.split('&')`, which passes over empty parts; `none` when it throws. -/
def collectFields {σ : Type} (add : σ → Text → Text → σ) (out : σ) (text : Text) : Option σ :=
  ((split '&' text).filter (· ≠ [])).foldlM
    (fun out part => (decodePart part).map fun (name, value) => add out name value) out

/-- A property of the decoded object: a string, or an array from the second value on. -/
inductive FieldValue where
  | single (v : Text)
  | list (vs : List Text)
  deriving DecidableEq, Repr

/-- The values in order. -/
def FieldValue.values : FieldValue → List Text
  | .single v => [v]
  | .list vs => vs

/-- The decoded object, which has no prototype. -/
abbrev Fields := Assoc Text FieldValue

/-- `if(k in out) out[k] = [].concat(out[k], v); else out[k] = v`. -/
def addField (out : Fields) (k v : Text) : Fields :=
  match out.get k with
  | some old => out.set k (.list (old.values ++ [v]))
  | none => out.set k (.single v)

/-- The values of the object under each name. -/
def Fields.multimap (out : Fields) : Multimap Text Text :=
  fun k => (out.get k).elim [] FieldValue.values

/-- Every `%` is followed by two hexadecimal digits. -/
def wellEscaped : Text → Bool
  | '%' :: a :: b :: rest => a.isHexDigit && b.isHexDigit && wellEscaped rest
  | c :: rest => c ≠ '%' && wellEscaped rest
  | [] => true

/-! ## `ServerRequest.query` -/

/-- What lws reports of a request line. It splits the target at `?` itself. -/
structure RequestLine where
  uri : Text
  args : Text
  noQuery : '?' ∉ uri

/-- `originalUrl`. -/
def RequestLine.originalUrl (line : RequestLine) : Text :=
  (if line.uri = [] then ['/'] else line.uri) ++ if line.args = [] then [] else '?' :: line.args

/-- The `query` getter. -/
def RequestLine.query (line : RequestLine) : Option Fields :=
  if '?' ∉ line.originalUrl then some .empty
  else collectFields addField .empty ((line.originalUrl.dropWhile (· ≠ '?')).drop 1)

/-! ## `Body.formData` -/

/-- `/^multipart\/form-data/i.test(ct)`. -/
def isMultipart (contentType : Text) : Bool :=
  "multipart/form-data".toList.isPrefixOf (contentType.map Char.toLower)

/-- `Body.formData`: the entries of the object; `none` when the promise is rejected. -/
def formData (contentType text : Text) : Option (List Url.Param) :=
  if isMultipart contentType then none
  else if text = [] then some []
  else collectFields (fun entries name value => entries ++ [(name, value)]) [] text

/-! ## `urlencoded` -/

/-- What the middleware does with a request: it leaves it alone, hands it on with the decoded body,
or answers it with 413 or 400. -/
inductive Handled where
  | skipped
  | parsed (body : Fields)
  | tooLarge
  | bad

/-- `/^application\/x-www-form-urlencoded/i`. -/
def isForm (contentType : Text) : Bool :=
  "application/x-www-form-urlencoded".toList.isPrefixOf (contentType.map Char.toLower)

/-- `urlencoded({ limit, type })` on a request with the body. Only the error of `readBody` has the
word `limit` in its message. -/
def urlencoded (limit : Nat) (type : Text → Bool) (contentType : Text) (body : List UInt8) :
    Handled :=
  if !type contentType then .skipped
  else if body.length > limit then .tooLarge
  else
    match Url.toString body with
    | .error _ => .bad
    | .ok text =>
      if text = [] then .parsed .empty
      else (collectFields addField .empty text).elim .bad .parsed

/-- The decoded body; `none` when the request was answered. -/
def Handled.body : Handled → Option Fields
  | .parsed body => some body
  | .skipped | .tooLarge | .bad => none

end QjsLws.Form
