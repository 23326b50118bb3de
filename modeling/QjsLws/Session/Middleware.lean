import QjsLws.Session.MemoryStore
import Mathlib.Data.List.Sort

/-!
# The session middleware

Model of `sessionMiddleware` and `snapshotKeys` (`lib/lws/session.js`) for one request. The
functions below are the stretches of the code between its awaits: opening the session, the
methods installed on `req.session` before and after their store call, and the `finally` block.
-/

namespace QjsLws.Session

open QjsLws.Misc

/-- The options of `session()`. -/
structure SessionConfig where
  ttlMs : Nat
  resave : Bool
  saveUninitialized : Bool
  rolling : Bool
  deriving DecidableEq, Repr

/-- The methods installed on `req.session`. -/
inductive SessionMethod where
  | destroy
  | save
  | touch
  | regenerate
  deriving DecidableEq, Repr

/-- The key a method is installed under. -/
def SessionMethod.key : SessionMethod → Text
  | .destroy => "destroy".toList
  | .save => "save".toList
  | .touch => "touch".toList
  | .regenerate => "regenerate".toList

/-- What a property of `req.session` holds. -/
inductive PropertyValue (ν : Type) where
  | json (value : ν)
  | method (method : SessionMethod)
  deriving DecidableEq, Repr

/-- A property of `req.session`. -/
structure Property (ν : Type) where
  value : PropertyValue ν
  enumerable : Bool
  deriving DecidableEq, Repr

/-- The object `data`. -/
abbrev SessionObject (ν : Type) := Assoc Text (Property ν)

variable {ν : Type}

/-- The number an array index key stands for. -/
def arrayIndex (key : Text) : Option Nat :=
  (number key).filter fun n => decimal n = key ∧ n < 2 ^ 32 - 1

/-- The order of own properties: array indices by number, then the others as they were added. -/
def ownOrder {β : Type} (entries : List (Text × β)) : List (Text × β) :=
  (entries.filter fun e => (arrayIndex e.1).isSome).insertionSort
      (fun a b => (arrayIndex a.1).getD 0 ≤ (arrayIndex b.1).getD 0)
    ++ entries.filter fun e => !(arrayIndex e.1).isSome

theorem ownOrder_perm {β : Type} (entries : List (Text × β)) : (ownOrder entries).Perm entries :=
  ((List.perm_insertionSort _ _).append_right _).trans (List.filter_append_perm _ entries)

/-- The value of an enumerable property. -/
def Property.enumerated (p : Property ν) : Option ν :=
  match p with
  | ⟨.json value, true⟩ => some value
  | _ => none

/-- `snapshotKeys`. -/
def snapshotKeys (o : SessionObject ν) : SessionData ν :=
  (o.filterMap Property.enumerated).arrange ownOrder ownOrder_perm

/-- A plain object with the given data. -/
def plainObject (data : SessionData ν) : SessionObject ν :=
  data.filterMap fun value => some ⟨.json value, true⟩

/-- `data[key] = value`; an own property keeps its attributes. -/
def assign (o : SessionObject ν) (key : Text) (value : ν) : SessionObject ν :=
  o.set key ⟨.json value, ((o.get key).map (·.enumerable)).getD true⟩

/-- `def(key, value)`. -/
def defineMethod (o : SessionObject ν) (method : SessionMethod) : SessionObject ν :=
  o.set method.key ⟨.method method, false⟩

/-- The four methods, in the order of the source. -/
def installMethods (o : SessionObject ν) : SessionObject ν :=
  [.destroy, .save, .touch, .regenerate].foldl defineMethod o

/-- The variables of one call of `sessionMiddleware`. `initialSnapshot` stands for its JSON text:
two snapshots have the same text exactly when they list the same entries. `cookie` is the last
`Set-Cookie` for the session: an id, or `none` where it was cleared. -/
structure RequestSession (ν : Type) where
  sid : Nat
  data : SessionObject ν
  isNew : Bool
  destroyed : Bool
  initialSnapshot : List (Text × ν)
  headersSent : Bool
  cookie : Option (Option Nat)

/-- From the awaited `store.get` to the call of `next()`; `newId` is what `genId` returns. -/
def openSession (cfg : SessionConfig) (sid : Option Nat) (fetched : Option (SessionData ν))
    (newId : Nat) : RequestSession ν :=
  match sid, fetched with
  | some sid, some fetched =>
    let data := plainObject (snapshotKeys (plainObject fetched))
    { sid, data := installMethods data, isNew := false, destroyed := false,
      initialSnapshot := (snapshotKeys data).entries, headersSent := false,
      cookie := if cfg.rolling then some (some sid) else none }
  | _, _ =>
    { sid := newId, data := installMethods .empty, isNew := true, destroyed := false,
      initialSnapshot := [], headersSent := false, cookie := some (some newId) }

namespace RequestSession

/-- Whether `req.session[key]` is still the method. -/
def hasMethod (s : RequestSession ν) (method : SessionMethod) : Bool :=
  match s.data.get method.key with
  | some ⟨.method m, _⟩ => m = method
  | _ => false

/-- `res.cookie` or `res.clearCookie`, unless the headers are out. -/
def setCookie (s : RequestSession ν) (value : Option Nat) : RequestSession ν :=
  if s.headersSent then s else { s with cookie := some value }

/-- The rest of `destroy` after its store call. -/
def afterDestroy (s : RequestSession ν) : RequestSession ν :=
  { s with data := ⟨s.data.entries.filter (!·.2.enumerable),
      s.data.nodup.sublist (List.filter_sublist.map Prod.fst)⟩ }.setCookie none

/-- The rest of `regenerate` after `genId`, before its second store call. -/
def afterGenId (s : RequestSession ν) (newId : Nat) : RequestSession ν :=
  { s with sid := newId, isNew := true }.setCookie (some newId)

/-- `populated`. -/
def populated (s : RequestSession ν) : Bool := !(snapshotKeys s.data).entries.isEmpty

variable [DecidableEq ν]

/-- `changed`. -/
def changed (s : RequestSession ν) : Bool := (snapshotKeys s.data).entries ≠ s.initialSnapshot

/-- What the `finally` block does with the store. -/
inductive FinishAction where
  | nothing
  | set
  | touch
  deriving DecidableEq, Repr

/-- The decision of the `finally` block. -/
def finishAction (cfg : SessionConfig) (s : RequestSession ν) : FinishAction :=
  if s.destroyed then .nothing
  else if (s.isNew && !s.populated && !cfg.saveUninitialized)
      || (!s.changed && !cfg.resave && !cfg.rolling) then .nothing
  else if s.changed || cfg.resave || !cfg.rolling then .set
  else .touch

/-- The `finally` block. -/
def finish (cfg : SessionConfig) (now : Nat) (s : RequestSession ν) (store : MemoryStore ν) :
    MemoryStore ν :=
  match s.finishAction cfg with
  | .nothing => store
  | .set => store.set now s.sid (snapshotKeys s.data) cfg.ttlMs
  | .touch => store.touch now s.sid cfg.ttlMs

end RequestSession

end QjsLws.Session
