import QjsLws.App.Language
import QjsLws.App.Layers

/-!
# Mounted routers and joined patterns

The patterns of mount paths and routes, segment by segment, and the comparison of a router mounted
at a path with the joined pattern registered on the app itself.
-/

namespace QjsLws.App

open QjsLws.Misc

/-- The segment is a word. -/
def Piece.isWord : Piece → Bool
  | .word _ => true
  | .param .. => false

/-- No word has a star in it. -/
def Starless (pieces : List Piece) : Prop := ∀ w, .word w ∈ pieces → '*' ∉ w.text

/-- Segments, each after a slash. -/
def slashed (segments : List Piece) : Text := segments.flatMap fun s => '/' :: s.text

/-- A mount path: `/` or segments without a trailing slash. -/
def mountText (segments : List Piece) : Text :=
  if segments.isEmpty then ['/'] else slashed segments

/-- A route pattern: segments, and possibly a final star. -/
structure RoutePattern where
  segments : List Piece
  star : Bool

namespace RoutePattern

/-- The pattern as it is written. -/
def text (r : RoutePattern) : Text :=
  if r.segments.isEmpty && !r.star then ['/']
  else slashed r.segments ++ if r.star then ['/', '*'] else []

end RoutePattern

/-- The joined pattern; the join of `/` and a route is the route. -/
def joined (p : List Piece) (r : RoutePattern) : Text :=
  if p.isEmpty then r.text else mountText p ++ r.text

/-- `app.use(p, router)`, where the router holds the route with handler 0. -/
def mountedApp (p : List Piece) (r : RoutePattern) (method : Text) (isError : Bool) :
    Option (List Layer) :=
  (route [] method r.text isError 0).bind fun router => useRouter [] (mountText p) router

/-- The joined pattern registered on the app, with handler 0. -/
def directApp (p : List Piece) (r : RoutePattern) (method : Text) (isError : Bool) :
    Option (List Layer) := route [] method (joined p r) isError 0

/-- What the calls of a handler saw as parameters. -/
def paramsOf (id : Nat) (calls : List Call) : List (Assoc Text Text) :=
  (calls.filter fun call => call.id = some id).map Call.params

mutual

/-- No handler of the layer has the number, nor one of a router inside. -/
def Layer.Lacks (id : Nat) : Layer → Prop
  | .handler _ _ _ _ other => other ≠ id
  | .router _ _ _ layers => AllLack id layers

/-- No handler of the layers has the number. -/
def AllLack (id : Nat) : List Layer → Prop
  | [] => True
  | layer :: layers => layer.Lacks id ∧ AllLack id layers

end

/-- Mounting the router and registering the joined pattern both throw, or call the route's handler on
the same requests with the same parameters, and every layer of the parent sees the original path. -/
def Composes (p : List Piece) (r : RoutePattern) : Prop :=
  ∀ (method : Text) (isError : Bool),
    mountedApp p r method isError = none ∧ directApp p r method isError = none ∨
    ∃ mounted direct,
      mountedApp p r method isError = some mounted ∧ directApp p r method isError = some direct ∧
      ∀ (behave : Nat → Exchange → Behaviour) (later : List Layer) (req : Exchange),
        AllLack 0 later →
          paramsOf 0 (dispatch behave (mounted ++ later) req).calls
              = paramsOf 0 (dispatch behave (direct ++ later) req).calls ∧
            ∀ call ∈ (dispatch behave (mounted ++ later) req).calls, call.depth = 0 →
              call.path = req.path

/-- What it takes to compose. One of the patterns is no regular expression, or the mount path has
only words, without stars, the route starts with a segment without a leading star, and it does not
match `/`, which the router sees for the mount path itself. -/
def Composable (p : List Piece) (r : RoutePattern) : Prop :=
  (compilePath (mountText p) false = none ∨ compilePath r.text true = none) ∨
    p ≠ [] ∧ (∀ s ∈ p, s.isWord = true) ∧ Starless p ∧
      (∃ first later, r.segments = first :: later ∧ first.text.head? ≠ some '*') ∧
        ∀ regex keys, compilePath r.text true = some (regex, keys) → regex.exec ['/'] = none

end QjsLws.App
