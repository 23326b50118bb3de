import QjsLws.Misc.Assoc
import QjsLws.Misc.Number

/-!
# Expiry of sessions

`MemoryStore` (`lib/lws/session.js`) with its clock: `sweep`, and times to live that may be any number.
Histories of calls are lists with the latest call in front; `κ` is the type of the session ids and `α`
that of the data.
-/

namespace QjsLws.Session

open QjsLws.Misc

/-- What `Date.now()` gives. -/
abbrev Moment := ℤ

/-- A time to live, or the time an entry expires; `⊤` for one that no comparison reaches, such as `NaN`. -/
abbrev Ttl := WithTop ℤ

/-- An entry of `#map`. -/
structure TimedEntry (α : Type) where
  data : α
  expires : Ttl
  deriving DecidableEq

/-- `entry.expires <= now` fails. -/
def TimedEntry.fresh {α : Type} (now : Moment) (entry : TimedEntry α) : Bool :=
  !decide (entry.expires ≤ (now : Ttl))

/-- The class `MemoryStore`. -/
structure TimedStore (κ α : Type) where
  map : Assoc κ (TimedEntry α)
  deriving DecidableEq

namespace TimedStore

variable {κ α : Type} [DecidableEq κ]

/-- `new MemoryStore()`. -/
def empty : TimedStore κ α := ⟨.empty⟩

/-- `get`. -/
def get (store : TimedStore κ α) (now : Moment) (sid : κ) : Option α × TimedStore κ α :=
  match store.map.get sid with
  | none => (none, store)
  | some entry =>
    if entry.expires ≤ (now : Ttl) then (none, ⟨store.map.erase sid⟩) else (some entry.data, store)

/-- `set`. -/
def set (store : TimedStore κ α) (now : Moment) (sid : κ) (data : α) (ttlMs : Ttl) :
    TimedStore κ α := ⟨store.map.set sid ⟨data, (now : Ttl) + ttlMs⟩⟩

/-- `destroy`. -/
def destroy (store : TimedStore κ α) (sid : κ) : TimedStore κ α := ⟨store.map.erase sid⟩

/-- `touch`. -/
def touch (store : TimedStore κ α) (now : Moment) (sid : κ) (ttlMs : Ttl) : TimedStore κ α :=
  match store.map.get sid with
  | none => store
  | some entry => ⟨store.map.set sid { entry with expires := (now : Ttl) + ttlMs }⟩

/-- `sweep`: the number of entries it drops, and the store without them. -/
def sweep (store : TimedStore κ α) (now : Moment) : Nat × TimedStore κ α :=
  (store.map.entries.countP fun e => !e.2.fresh now,
    ⟨store.map.filterMap fun entry => if entry.expires ≤ (now : Ttl) then none else some entry⟩)

end TimedStore

/-! ## Histories -/

/-- A call of a method. -/
inductive StoreCall (κ α : Type) where
  | get (sid : κ)
  | set (sid : κ) (data : α) (ttlMs : Ttl)
  | destroy (sid : κ)
  | touch (sid : κ) (ttlMs : Ttl)
  | sweep
  deriving DecidableEq

/-- `set`, `destroy` and `touch`. -/
def StoreCall.changes {κ α : Type} : StoreCall κ α → Bool
  | .set .. | .destroy _ | .touch .. => true
  | .get _ | .sweep => false

/-- Calls with their times, the latest in front. -/
abbrev StoreHistory (κ α : Type) := List (Moment × StoreCall κ α)

namespace StoreHistory

variable {κ α : Type}

/-- Time does not go back. -/
def Ordered (history : StoreHistory κ α) : Prop :=
  history.Pairwise fun later earlier => earlier.1 ≤ later.1

/-- The calls but `get` and `sweep`. -/
def changes (history : StoreHistory κ α) : StoreHistory κ α := history.filter fun c => c.2.changes

variable [DecidableEq κ]

/-- The store after a call. -/
def step (now : Moment) (store : TimedStore κ α) : StoreCall κ α → TimedStore κ α
  | .get sid => (store.get now sid).2
  | .set sid data ttlMs => store.set now sid data ttlMs
  | .destroy sid => store.destroy sid
  | .touch sid ttlMs => store.touch now sid ttlMs
  | .sweep => (store.sweep now).2

/-- The store after a history. -/
def run : StoreHistory κ α → TimedStore κ α
  | [] => .empty
  | c :: earlier => step c.1 (run earlier) c.2

/-! ## What a session store is for -/

/-- The entry of an id, where one ceases to be when it expires: only a touch before then moves its
end. -/
def stored (sid : κ) : StoreHistory κ α → Option (TimedEntry α)
  | [] => none
  | (now, .set sid' data ttlMs) :: earlier =>
    if sid' = sid then some ⟨data, (now : Ttl) + ttlMs⟩ else stored sid earlier
  | (_, .destroy sid') :: earlier => if sid' = sid then none else stored sid earlier
  | (now, .touch sid' ttlMs) :: earlier =>
    if sid' = sid then
      ((stored sid earlier).filter (·.fresh now)).map fun entry =>
        { entry with expires := (now : Ttl) + ttlMs }
    else stored sid earlier
  | (_, .get _) :: earlier | (_, .sweep) :: earlier => stored sid earlier

/-- What a `get` is to return. -/
def expected (history : StoreHistory κ α) (now : Moment) (sid : κ) : Option α :=
  ((stored sid history).filter (·.fresh now)).map (·.data)

/-- The data of the latest `set` of an id, where no `destroy` follows. -/
def latest (sid : κ) : StoreHistory κ α → Option α
  | [] => none
  | (_, .set sid' data _) :: earlier => if sid' = sid then some data else latest sid earlier
  | (_, .destroy sid') :: earlier => if sid' = sid then none else latest sid earlier
  | (_, .touch ..) :: earlier | (_, .get _) :: earlier | (_, .sweep) :: earlier => latest sid earlier

/-- A touch gives time to an entry that has expired and was not set or destroyed since. -/
def Revives (earlier : StoreHistory κ α) (now : Moment) (sid : κ) (ttlMs : Ttl) : Prop :=
  (latest sid earlier).isSome ∧ expected earlier now sid = none ∧ ¬(now : Ttl) + ttlMs ≤ now

/-- What the store promises for changes at their times, wherever `get` and `sweep` are called. -/
structure Contract (history : StoreHistory κ α) : Prop where
  /-- A `get` returns what is stored by then. -/
  returns : ∀ later now sid earlier, Ordered (later ++ (now, .get sid) :: earlier) →
    changes (later ++ (now, .get sid) :: earlier) = changes history →
      ((run earlier).get now sid).1 = expected earlier now sid
  /-- What has expired is not returned without a new `set`. -/
  expired : ∀ later now sid since moment earlier,
    Ordered (later ++ (now, .get sid) :: since ++ earlier) →
    changes (later ++ (now, .get sid) :: since ++ earlier) = changes history →
    (∀ c ∈ (now, .get sid) :: since, moment ≤ c.1) → (∀ c ∈ earlier, c.1 ≤ moment) →
    expected earlier moment sid = none → (∀ c ∈ since, ∀ data ttlMs, c.2 ≠ .set sid data ttlMs) →
      ((run (since ++ earlier)).get now sid).1 = none
  /-- The `get` and `sweep` calls before a `get` make no difference to it. -/
  independent : ∀ later later' now sid earlier earlier',
    Ordered (later ++ (now, .get sid) :: earlier) → Ordered (later' ++ (now, .get sid) :: earlier') →
    changes (later ++ (now, .get sid) :: earlier) = changes history →
    changes (later' ++ (now, .get sid) :: earlier') = changes history →
    changes earlier = changes earlier' →
      ((run earlier).get now sid).1 = ((run earlier').get now sid).1

end StoreHistory

end QjsLws.Session
