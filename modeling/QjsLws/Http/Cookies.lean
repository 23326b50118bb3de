import QjsLws.App.Path
import QjsLws.Http.ServerResponse
import QjsLws.Misc.Number

/-!
# Cookies

`parseCookieHeader` (`lib/lws/request.js`), and the header that a client makes of what `buildSetCookie`
(`lib/lws/response.js`) sent.
-/

namespace QjsLws.Http

open QjsLws.Misc

/-! ## `parseCookieHeader` -/

/-- `t.replace(/^"|"$/g, '')`. -/
def stripQuotes (t : Text) : Text :=
  let t := if t.head? = some '"' then t.drop 1 else t
  if t.getLast? = some '"' then t.dropLast else t

/-- One part of the header. -/
def parseCookie (out : Assoc Text Text) (part : Text) : Assoc Text Text :=
  if '=' ∉ part then out
  else
    let name := strip isStrWhiteSpace (part.takeWhile (· ≠ '='))
    let value := stripQuotes (strip isStrWhiteSpace ((part.dropWhile (· ≠ '=')).drop 1))
    if name = [] ∨ out.has name then out
    else out.set name ((App.decodeURIComponent value).getD value)

/-- `parseCookieHeader`; the object it returns has no prototype. -/
def parseCookieHeader : Option Text → Assoc Text Text
  | none | some [] => .empty
  | some header => (split ';' header).foldl parseCookie .empty

/-! ## What a client sends back -/

/-- A call of `res.cookie`. -/
structure Cookie where
  name : Text
  value : Text
  options : CookieOptions
  named : name ≠ []

/-- The `name=value` part of the header that `buildSetCookie` makes: what stands before the first `;`. -/
def Cookie.pair (cookie : Cookie) : Text :=
  (buildSetCookie cookie.name cookie.value cookie.options).takeWhile (· ≠ ';')

/-- The `Cookie` header of the pairs. -/
def cookieHeader (cookies : List Cookie) : Text := join "; ".toList (cookies.map Cookie.pair)

/-- The value that a list of cookies has under a name. -/
def cookieValue (cookies : List Cookie) (name : Text) : Option Text :=
  (cookies.find? fun cookie => cookie.name = name).map Cookie.value

end QjsLws.Http
