import QjsLws.Http.Proofs.Framing
import QjsLws.Http.Proofs.HeadersViews
import QjsLws.Misc.Number

/-!
# Header injection

Whatever strings a caller passes in, through `Headers` or through the methods of `ServerResponse`,
the stored names are tokens and the stored values have no line breaks. Each value becomes one line
of the response, as far as `toObject` hands it on and lws has room for it.
-/

namespace QjsLws.Http

open QjsLws.Misc ServerResponse

/-! ## Lines -/

/-- There is room for every line. -/
def Fits (full : List (Text × Text) → Text × Text → Bool) (taken : List (Text × Text)) :
    List (Text × Text) → Prop
  | [] => True
  | line :: rest => full taken line = false ∧ Fits full (taken ++ [line]) rest

/-- A call that reaches the headers of a response: a method of the response, `clearCookie`, or a
method of the object that the getter `headers` returns. -/
inductive HeaderEntry where
  | method (call : ResponseCall)
  | clearCookie (name : Text) (opts : CookieOptions)
  | direct (call : HeaderCall)

/-- What a call leaves behind and throws. -/
def ServerResponse.enter (wsi : Wsi) (s : ServerResponse) : HeaderEntry → ResponseOutcome
  | .method call => s.call wsi call
  | .clearCookie name opts => s.clearCookie name opts
  | .direct call => s.changeHeaders (·.call call)

section Stored

variable {h : Headers}

end Stored

/-! ## What reaches the response -/

section Lines

variable {full : List (Text × Text) → Text × Text → Bool} {h : Headers}

end Lines

/-! ## Calls -/

section Calls

variable {wsi : Wsi} {s : ServerResponse}

end Calls

end QjsLws.Http
