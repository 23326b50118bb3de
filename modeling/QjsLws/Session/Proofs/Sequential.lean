import QjsLws.Session.Sequential

/-!
# What the next request sees

Requests come one after another and the ttl does not run out. A session is handed on with its
contents exactly when its data was written and its id reached the client (`HandsOn`), and after
`destroy()` the next request starts afresh exactly when nothing was stored again that the client
can load (`StaysDestroyed`). Both are read off the handler's trace, and the code's id, cookie and
store follow that trace.
-/

namespace QjsLws.Session

open QjsLws.Misc

variable {ν : Type}

/-! ## Handing a session on -/

/-- The JSON value of a property. -/
def Property.json (p : Property ν) : Option ν :=
  match p.value with
  | .json value => some value
  | .method _ => none

/-- The contents of a session: what the handler reads as data. -/
def contents (o : SessionObject ν) (key : Text) : Option ν := (o.get key).bind Property.json

/-- A key that one of the methods is installed under. -/
def Reserved (key : Text) : Prop := ∃ method : SessionMethod, key = method.key

/-- The whole request lies in a stretch of time. -/
structure SequentialRequest.Within (request : SequentialRequest ν) (first limit : Nat) : Prop where
  start : request.start < limit
  ops : ∀ op ∈ request.ops, first ≤ op.1
  finish : first ≤ request.finish

/-- What a handler does with its session, apart from the data itself. `cookieCurrent` says whether
the client holds the id of the session, `saved` is the data the session was loaded from or last
stored with, `renewed` says whether its id was generated after the last `destroy()`, and `known`
counts the ids handed out by then. -/
structure HandlerTrace (ν : Type) where
  headersSent : Bool
  cookieCurrent : Bool
  saved : Option (SessionData ν)
  destroyed : Bool
  renewed : Bool
  known : Nat

namespace HandlerTrace

/-- The trace at the start, for the data the session was loaded from. -/
def start (loaded : Option (SessionData ν)) : HandlerTrace ν := ⟨false, true, loaded, false, true, 0⟩

/-- The trace after an operation on a session with this data, with `nextId` ids handed out. -/
def after (t : HandlerTrace ν) (data : SessionObject ν) (nextId : Nat) :
    HandlerOp ν → HandlerTrace ν
  | .assign _ _ | .delete _ | .call .touch => t
  | .sendHeaders => { t with headersSent := true }
  | .call .save => { t with saved := some (snapshotKeys data) }
  | .call .regenerate =>
    { t with
      cookieCurrent := !t.headersSent
      saved := some (snapshotKeys data)
      renewed := true }
  | .call .destroy =>
    { t with
      cookieCurrent := t.cookieCurrent && t.headersSent
      saved := none
      destroyed := true
      renewed := false
      known := nextId }

end HandlerTrace

/-- The trace of a handler, up to its end or to an exception. -/
def traceHandler (cfg : SessionConfig) (h : HandlerState ν) (t : HandlerTrace ν) :
    List (Nat × HandlerOp ν) → HandlerTrace ν
  | [] => t
  | (now, op) :: ops =>
    match handlerStep cfg now h op with
    | some next => traceHandler cfg next (t.after h.session.data h.nextId op) ops
    | none => t

/-- What a request loads its session from. -/
def loadedData (s : SequentialState ν) (now : Nat) : Option (SessionData ν) :=
  s.cookie.bind fun sid => (s.store.get now sid).1

/-- The trace of a request's handler. -/
def handledTrace (cfg : SessionConfig) (s : SequentialState ν) (request : SequentialRequest ν) :
    HandlerTrace ν :=
  traceHandler cfg (beginRequest cfg s request.start) (.start (loadedData s request.start))
    request.ops

/-- The next request sees the same contents under the same id. -/
def CarriesOver (ended next : HandlerState ν) : Prop :=
  next.session.sid = ended.session.sid ∧
    ∀ key, contents next.session.data key = contents ended.session.data key

/-- The next request starts empty under an id generated since. -/
def StartsAfresh (known : Nat) (next : HandlerState ν) : Prop :=
  known ≤ next.session.sid ∧ ∀ key, contents next.session.data key = none

/-- The session is not empty, or `saveUninitialized` is set. -/
def Worth (cfg : SessionConfig) (ended : HandlerState ν) : Prop :=
  (∃ key, contents ended.session.data key ≠ none) ∨ cfg.saveUninitialized = true

/-- The next request sees the session, or starts afresh after a `destroy()`. -/
def HandedOver (cfg : SessionConfig) (t : HandlerTrace ν) (ended next : HandlerState ν) : Prop :=
  (t.destroyed = false → Worth cfg ended → CarriesOver ended next) ∧
    (t.destroyed = true → StartsAfresh t.known next)

/-- What it takes for a session to be handed on: no name of a method holds a value, the client
holds its id, and it is written at the end, because of `resave` or because its text is not the one
it started with, or what was stored last are its contents. -/
structure HandsOn (cfg : SessionConfig) (t : HandlerTrace ν) (opened ended : RequestSession ν) :
    Prop where
  ordinary : ∀ key, Reserved key → contents ended.data key = none
  current : t.cookieCurrent = true
  written : cfg.resave = true ∨ (snapshotKeys ended.data).entries ≠ opened.initialSnapshot ∨
    ∃ data, t.saved = some data ∧ ∀ key, ¬Reserved key → data.get key = contents ended.data key

/-- After `destroy()`: where the client holds the id of the session and something was stored under
it, the id was generated since and the stored data is empty. -/
def StaysDestroyed (t : HandlerTrace ν) : Prop :=
  t.cookieCurrent = true → ∀ data, t.saved = some data →
    t.renewed = true ∧ ∀ key, ¬Reserved key → data.get key = none

/-- The condition for both halves. -/
def KeepsSession (cfg : SessionConfig) (t : HandlerTrace ν) (opened ended : HandlerState ν) :
    Prop :=
  (t.destroyed = false → Worth cfg ended → HandsOn cfg t opened.session ended.session) ∧
    (t.destroyed = true → StaysDestroyed t)

/-! ## Objects -/

section Objects

theorem get_snapshotKeys (o : SessionObject ν) (key : Text) :
    (snapshotKeys o).get key = (o.get key).bind Property.enumerated := by
  unfold snapshotKeys
  rw [Assoc.get_arrange, Assoc.get_filterMap]

theorem get_plainObject (data : SessionData ν) (key : Text) :
    (plainObject data).get key = (data.get key).map fun value => ⟨.json value, true⟩ := by
  unfold plainObject
  rw [Assoc.get_filterMap]
  cases data.get key <;> rfl

theorem get_snapshotKeys_plainObject (data : SessionData ν) (key : Text) :
    (snapshotKeys (plainObject data)).get key = data.get key := by
  rw [get_snapshotKeys, get_plainObject]
  cases data.get key <;> rfl

theorem SessionMethod.key_injective : Function.Injective SessionMethod.key := by
  intro m m' same
  cases m <;> cases m' <;> first | rfl | exact absurd same (by decide)

theorem get_installMethods_key (o : SessionObject ν) (method : SessionMethod) :
    (installMethods o).get method.key = some ⟨.method method, false⟩ := by
  simp only [installMethods, defineMethod, List.foldl_cons, List.foldl_nil, Assoc.get_set,
    SessionMethod.key_injective.eq_iff]
  cases method <;> rfl

theorem get_installMethods_ordinary (o : SessionObject ν) {key : Text} (ordinary : ¬Reserved key) :
    (installMethods o).get key = o.get key := by
  have other : ∀ method : SessionMethod, method.key ≠ key :=
    fun method same => ordinary ⟨method, same.symm⟩
  simp [installMethods, defineMethod, Assoc.get_set, other]

/-- All properties are plain data, the names of the methods apart. -/
def Plain (o : SessionObject ν) : Prop :=
  ∀ key p, ¬Reserved key → o.get key = some p → ∃ value, p = ⟨.json value, true⟩

/-- Stores see the contents of a session, the names of the methods apart. -/
theorem Plain.get_snapshotKeys {o : SessionObject ν} (plain : Plain o) {key : Text}
    (ordinary : ¬Reserved key) : (snapshotKeys o).get key = contents o key := by
  rw [Session.get_snapshotKeys, contents]
  cases found : o.get key with
  | none => rfl
  | some p =>
    obtain ⟨value, rfl⟩ := plain key p ordinary found
    rfl

theorem Plain.install (data : SessionData ν) : Plain (installMethods (plainObject data)) := by
  intro key p ordinary found
  rw [get_installMethods_ordinary _ ordinary, get_plainObject] at found
  cases value : data.get key with
  | none => simp [value] at found
  | some v =>
    rw [value] at found
    cases found
    exact ⟨v, rfl⟩

theorem Plain.assign {o : SessionObject ν} (plain : Plain o) (key : Text) (value : ν) :
    Plain (assign o key value) := by
  intro key' p ordinary found
  rw [Session.assign, Assoc.get_set] at found
  split at found
  · rename_i same
    subst same
    cases found
    refine ⟨value, ?_⟩
    cases present : o.get key with
    | none => rfl
    | some q =>
      obtain ⟨old, rfl⟩ := plain key q ordinary present
      rfl
  · exact plain key' p ordinary found

theorem Plain.erase {o : SessionObject ν} (plain : Plain o) (key : Text) : Plain (o.erase key) := by
  intro key' p ordinary found
  rw [Assoc.get_erase] at found
  split at found
  · cases found
  · exact plain key' p ordinary found

theorem get_afterDestroy (s : RequestSession ν) (key : Text) :
    s.afterDestroy.data.get key = (s.data.get key).filter (!·.enumerable) := by
  have data : s.afterDestroy.data.entries = s.data.entries.filter (!·.2.enumerable) := by
    unfold RequestSession.afterDestroy RequestSession.setCookie
    split <;> rfl
  unfold Assoc.get
  rw [data]
  exact Assoc.find_filter_value (p := fun p => !p.enumerable) s.data.nodup

theorem Plain.afterDestroy {s : RequestSession ν} (plain : Plain s.data) :
    Plain s.afterDestroy.data := by
  intro key p ordinary found
  rw [get_afterDestroy] at found
  cases present : s.data.get key with
  | none => simp [present] at found
  | some q =>
    obtain ⟨value, rfl⟩ := plain key q ordinary present
    rw [present] at found
    cases found

end Objects

/-! ## The store -/

section Store

variable {store : MemoryStore ν} {limit n : Nat}

/-- Nothing expires before the limit, and ids are known. -/
def StoreInv (limit n : Nat) (store : MemoryStore ν) : Prop :=
  ∀ sid entry, store.map.get sid = some entry → limit ≤ entry.expires ∧ sid < n

theorem StoreInv.mono (inv : StoreInv limit n store) {m : Nat} (le : n ≤ m) :
    StoreInv limit m store := by
  intro sid entry found
  obtain ⟨late, known⟩ := inv sid entry found
  exact ⟨late, Nat.lt_of_lt_of_le known le⟩

theorem StoreInv.set (inv : StoreInv limit n store) {now sid ttlMs : Nat} (data : SessionData ν)
    (late : limit ≤ now + ttlMs) (known : sid < n) :
    StoreInv limit n (store.set now sid data ttlMs) := by
  intro sid' entry found
  rw [MemoryStore.set, Assoc.get_set] at found
  split at found
  · rename_i same
    cases found
    exact ⟨late, same ▸ known⟩
  · exact inv sid' entry found

theorem StoreInv.destroy (inv : StoreInv limit n store) (sid : Nat) :
    StoreInv limit n (store.destroy sid) := by
  intro sid' entry found
  rw [MemoryStore.destroy, Assoc.get_erase] at found
  split at found
  · cases found
  · exact inv sid' entry found

theorem StoreInv.touch (inv : StoreInv limit n store) {now sid ttlMs : Nat}
    (late : limit ≤ now + ttlMs) : StoreInv limit n (store.touch now sid ttlMs) := by
  unfold MemoryStore.touch
  split
  · exact inv
  · rename_i entry present
    exact inv.set entry.data late (inv sid entry present).2

/-- Before the limit `get` returns what is kept and drops nothing. -/
theorem StoreInv.get (inv : StoreInv limit n store) {now : Nat} (early : now < limit) (sid : Nat) :
    store.get now sid = (store.kept sid, store) := by
  unfold MemoryStore.get MemoryStore.kept
  cases found : store.map.get sid with
  | none => rfl
  | some entry =>
    have late : now < entry.expires := Nat.lt_of_lt_of_le early (inv sid entry found).1
    simp [Nat.not_le.mpr late]

theorem StoreInv.kept (inv : StoreInv limit n store) {sid : Nat} {data : SessionData ν}
    (found : store.kept sid = some data) : sid < n := by
  unfold MemoryStore.kept at found
  rw [Option.map_eq_some_iff] at found
  obtain ⟨entry, present, rfl⟩ := found
  exact (inv sid entry present).2

/-- Nothing is kept under an id that was not handed out yet. -/
theorem StoreInv.kept_new (inv : StoreInv limit n store) : store.kept n = none := by
  cases kept : store.kept n with
  | none => rfl
  | some data => exact absurd (inv.kept kept) (Nat.lt_irrefl n)

end Store

/-! ## The start of a request -/

/-- Between two requests: the store, and the id in the client's cookie. -/
structure SequentialInv (limit : Nat) (s : SequentialState ν) : Prop where
  store : StoreInv limit s.nextId s.store
  cookie : ∀ sid, s.cookie = some sid → sid < s.nextId

/-- The cookie the client holds after a response like this one. -/
def heldCookie (s : SequentialState ν) (h : HandlerState ν) : Option Nat :=
  h.session.cookie.getD s.cookie

/-- While a handler runs, the code follows the trace, and the client holds the id of the session,
or one with no data. -/
structure HandlerInv (limit : Nat) (s : SequentialState ν) (h : HandlerState ν)
    (t : HandlerTrace ν) : Prop where
  plain : Plain h.session.data
  store : StoreInv limit h.nextId h.store
  issued : h.session.sid < h.nextId
  held : ∀ sid, heldCookie s h = some sid →
    sid < h.nextId ∧ (sid = h.session.sid ∨ h.store.kept sid = none)
  headers : h.session.headersSent = t.headersSent
  current : heldCookie s h = some h.session.sid ↔ t.cookieCurrent = true
  saved : h.store.kept h.session.sid = t.saved
  destroyed : h.session.destroyed = t.destroyed
  renewed : t.known ≤ h.session.sid ↔ t.renewed = true
  later : t.known ≤ h.nextId

section Begin

variable {cfg : SessionConfig} {limit now : Nat} {s : SequentialState ν}

/-- A cookie with data: the session is loaded. -/
theorem beginRequest_loaded (inv : SequentialInv limit s) (early : now < limit) {sid : Nat}
    {data : SessionData ν} (cookie : s.cookie = some sid) (kept : s.store.kept sid = some data) :
    beginRequest cfg s now = ⟨s.store, s.nextId, openSession cfg (some sid) (some data) s.nextId⟩ := by
  simp [beginRequest, cookie, inv.store.get early, kept, openSession]

/-- No cookie, or one without data: a new session. -/
theorem beginRequest_new (inv : SequentialInv limit s) (early : now < limit)
    (gone : ∀ sid, s.cookie = some sid → s.store.kept sid = none) :
    beginRequest cfg s now = ⟨s.store, s.nextId + 1, openSession cfg none none s.nextId⟩ := by
  cases cookie : s.cookie with
  | none => simp [beginRequest, cookie, openSession]
  | some sid =>
    simp [beginRequest, cookie, inv.store.get early, gone sid cookie, openSession]

theorem contents_openSession_reserved (cookie : Option Nat) (fetched : Option (SessionData ν))
    (newId : Nat) {key : Text} (reserved : Reserved key) :
    contents (openSession cfg cookie fetched newId).data key = none := by
  obtain ⟨method, rfl⟩ := reserved
  unfold openSession
  split <;> simp [contents, get_installMethods_key, Property.json]

theorem contents_openSession_loaded (sid newId : Nat) (data : SessionData ν) {key : Text}
    (ordinary : ¬Reserved key) :
    contents (openSession cfg (some sid) (some data) newId).data key = data.get key := by
  simp only [openSession]
  rw [← (Plain.install _).get_snapshotKeys ordinary, get_snapshotKeys,
    get_installMethods_ordinary _ ordinary, ← get_snapshotKeys, get_snapshotKeys_plainObject,
    get_snapshotKeys_plainObject]

theorem plain_openSession (cookie : Option Nat) (fetched : Option (SessionData ν)) (newId : Nat) :
    Plain (openSession cfg cookie fetched newId).data := by
  unfold openSession
  split
  · exact Plain.install _
  · exact Plain.install .empty

theorem contents_openSession_new (cfg : SessionConfig) (newId : Nat) (key : Text) :
    contents (openSession (ν := ν) cfg none none newId).data key = none := by
  by_cases reserved : Reserved key
  · exact contents_openSession_reserved none none newId reserved
  · simp only [openSession, contents]
    rw [get_installMethods_ordinary _ reserved]
    rfl

/-- The id in the cookie has data, or the session is new. -/
theorem cookie_cases (s : SequentialState ν) :
    (∃ sid data, s.cookie = some sid ∧ s.store.kept sid = some data) ∨
      ∀ sid, s.cookie = some sid → s.store.kept sid = none := by
  cases cookie : s.cookie with
  | none => exact .inr (by simp)
  | some sid =>
    cases kept : s.store.kept sid with
    | none => exact .inr (by simp [kept])
    | some data => exact .inl ⟨sid, data, rfl, kept⟩

theorem handlerInv_beginRequest (inv : SequentialInv limit s) (early : now < limit) :
    HandlerInv limit s (beginRequest cfg s now) (.start (loadedData s now)) := by
  rcases cookie_cases s with ⟨sid, data, cookie, kept⟩ | gone
  · have loaded : loadedData s now = some data := by
      simp [loadedData, cookie, inv.store.get early, kept]
    have holds : (openSession cfg (some sid) (some data) s.nextId).cookie.getD s.cookie = some sid := by
      cases rolling : cfg.rolling <;> simp [openSession, rolling, cookie]
    rw [beginRequest_loaded inv early cookie kept, loaded]
    refine ⟨plain_openSession _ _ _, inv.store, inv.store.kept kept, fun held same => ?_, rfl,
      ⟨fun _ => rfl, fun _ => holds⟩, kept, rfl, ⟨fun _ => rfl, fun _ => Nat.zero_le _⟩,
      Nat.zero_le _⟩
    obtain rfl : sid = held := Option.some.inj (holds.symm.trans same)
    exact ⟨inv.store.kept kept, .inl rfl⟩
  · have loaded : loadedData s now = none := by
      cases cookie : s.cookie with
      | none => simp [loadedData, cookie]
      | some sid => simp [loadedData, cookie, inv.store.get early, gone sid cookie]
    rw [beginRequest_new inv early gone, loaded]
    refine ⟨plain_openSession _ _ _, inv.store.mono (Nat.le_succ _), Nat.lt_succ_self _,
      fun held same => ?_, rfl, ⟨fun _ => rfl, fun _ => rfl⟩, inv.store.kept_new, rfl,
      ⟨fun _ => rfl, fun _ => Nat.zero_le _⟩, Nat.zero_le _⟩
    have held : held = s.nextId := by simpa [heldCookie, openSession] using same.symm
    exact ⟨held ▸ Nat.lt_succ_self _, .inl held⟩

end Begin

/-! ## The handler -/

section Step

variable {cfg : SessionConfig} {limit now : Nat} {s : SequentialState ν} {h : HandlerState ν}
  {t : HandlerTrace ν}

/-- `destroy` after its store call, by whether the headers are out. -/
theorem afterDestroy_eq (r : RequestSession ν) : r.afterDestroy =
    { r with
      data := r.afterDestroy.data
      cookie := if r.headersSent then r.cookie else some none } := by
  unfold RequestSession.afterDestroy RequestSession.setCookie
  split <;> simp_all

/-- `regenerate` after `genId`, by whether the headers are out. -/
theorem afterGenId_eq (r : RequestSession ν) (id : Nat) : r.afterGenId id =
    { r with
      sid := id
      isNew := true
      cookie := if r.headersSent then r.cookie else some (some id) } := by
  unfold RequestSession.afterGenId RequestSession.setCookie
  split <;> simp_all

theorem HandlerInv.destroy (inv : HandlerInv limit s h t) :
    HandlerInv limit s (callMethod cfg now h .destroy)
      (t.after h.session.data h.nextId (.call .destroy)) := by
  have plain : Plain ({ h.session with destroyed := true }.afterDestroy).data :=
    Plain.afterDestroy (s := { h.session with destroyed := true }) inv.plain
  have gone : (h.store.destroy h.session.sid).kept h.session.sid = none := by
    rw [MemoryStore.kept_destroy, if_pos rfl]
  have unrenewed : ¬h.nextId ≤ h.session.sid := Nat.not_le.mpr inv.issued
  simp only [callMethod]
  rw [afterDestroy_eq]
  generalize ({ h.session with destroyed := true }.afterDestroy).data = data at plain ⊢
  cases sent : t.headersSent with
  | true =>
    have sent' : h.session.headersSent = true := inv.headers.trans sent
    simp only [sent', if_true, HandlerTrace.after, sent, Bool.and_true]
    refine ⟨plain, inv.store.destroy _, inv.issued, fun sid same => ?_, rfl, inv.current,
      gone, rfl, by simp [unrenewed], Nat.le_refl _⟩
    obtain ⟨known, current | unkept⟩ := inv.held sid same
    · exact ⟨known, .inl current⟩
    · exact ⟨known, .inr (by rw [MemoryStore.kept_destroy, unkept, ite_self])⟩
  | false =>
    have sent' : h.session.headersSent = false := inv.headers.trans sent
    simp only [sent', Bool.false_eq_true, if_false, HandlerTrace.after, sent, Bool.and_false]
    exact ⟨plain, inv.store.destroy _, inv.issued, fun sid same => (by cases same), rfl,
      by simp [heldCookie], gone, rfl, by simp [unrenewed], Nat.le_refl _⟩

theorem HandlerInv.save (inv : HandlerInv limit s h t) (late : limit ≤ now + cfg.ttlMs) :
    HandlerInv limit s (callMethod cfg now h .save)
      (t.after h.session.data h.nextId (.call .save)) := by
  refine ⟨inv.plain, inv.store.set _ late inv.issued, inv.issued, fun sid same => ?_, inv.headers,
    inv.current, ?_, inv.destroyed, inv.renewed, inv.later⟩
  · obtain ⟨known, current | gone⟩ := inv.held sid same
    · exact ⟨known, .inl current⟩
    · refine ⟨known, ?_⟩
      simp only [callMethod, MemoryStore.kept_set]
      split
      · rename_i eq
        exact .inl eq.symm
      · exact .inr gone
  · simp [callMethod, MemoryStore.kept_set, HandlerTrace.after]

theorem HandlerInv.touch (inv : HandlerInv limit s h t) (late : limit ≤ now + cfg.ttlMs) :
    HandlerInv limit s (callMethod cfg now h .touch) t := by
  refine ⟨inv.plain, inv.store.touch late, inv.issued, fun sid same => ?_, inv.headers,
    inv.current, ?_, inv.destroyed, inv.renewed, inv.later⟩
  · simp only [callMethod, MemoryStore.kept_touch]
    exact inv.held sid same
  · simp only [callMethod, MemoryStore.kept_touch]
    exact inv.saved

theorem HandlerInv.regenerate (inv : HandlerInv limit s h t) (late : limit ≤ now + cfg.ttlMs) :
    HandlerInv limit s (callMethod cfg now h .regenerate)
      (t.after h.session.data h.nextId (.call .regenerate)) := by
  have store : StoreInv limit (h.nextId + 1) ((h.store.destroy h.session.sid).set now h.nextId
      (snapshotKeys h.session.data) cfg.ttlMs) :=
    ((inv.store.destroy _).mono (Nat.le_succ _)).set _ late (Nat.lt_succ_self _)
  have kept : ((h.store.destroy h.session.sid).set now h.nextId (snapshotKeys h.session.data)
      cfg.ttlMs).kept h.nextId = some (snapshotKeys h.session.data) := by
    rw [MemoryStore.kept_set, if_pos rfl]
  simp only [callMethod]
  rw [afterGenId_eq]
  cases sent : t.headersSent with
  | true =>
    have sent' : h.session.headersSent = true := inv.headers.trans sent
    simp only [sent', if_true, HandlerTrace.after, sent, Bool.not_true]
    refine ⟨inv.plain, store, Nat.lt_succ_self _, fun sid same => ?_, rfl, ⟨fun same => ?_, ?_⟩,
      kept, inv.destroyed, ⟨fun _ => rfl, fun _ => inv.later⟩, Nat.le_succ_of_le inv.later⟩
    · obtain ⟨known, old⟩ := inv.held sid same
      refine ⟨Nat.lt_succ_of_lt known, .inr ?_⟩
      rw [MemoryStore.kept_set, MemoryStore.kept_destroy, if_neg (Nat.ne_of_gt known)]
      rcases old with current | gone
      · rw [if_pos current.symm]
      · rw [gone, ite_self]
    · exact absurd (inv.held h.nextId same).1 (Nat.lt_irrefl _)
    · simp
  | false =>
    have sent' : h.session.headersSent = false := inv.headers.trans sent
    simp only [sent', Bool.false_eq_true, if_false, HandlerTrace.after, sent, Bool.not_false]
    refine ⟨inv.plain, store, Nat.lt_succ_self _, fun sid same => ?_, rfl,
      ⟨fun _ => rfl, fun _ => rfl⟩, kept, inv.destroyed, ⟨fun _ => rfl, fun _ => inv.later⟩, Nat.le_succ_of_le inv.later⟩
    cases same
    exact ⟨Nat.lt_succ_self _, .inl rfl⟩

theorem handlerInv_step (inv : HandlerInv limit s h t) {op : HandlerOp ν}
    (late : limit ≤ now + cfg.ttlMs) {next : HandlerState ν}
    (step : handlerStep cfg now h op = some next) :
    HandlerInv limit s next (t.after h.session.data h.nextId op) := by
  cases op with
  | assign key value =>
    cases step
    exact { inv with plain := inv.plain.assign key value }
  | delete key =>
    cases step
    exact { inv with plain := inv.plain.erase key }
  | sendHeaders =>
    cases step
    exact { inv with headers := rfl }
  | call method =>
    simp only [handlerStep] at step
    split at step
    · cases step
      cases method with
      | destroy => exact inv.destroy
      | save => exact inv.save late
      | touch => exact inv.touch late
      | regenerate => exact inv.regenerate late
    · cases step

/-- No operation takes another snapshot. -/
theorem handlerStep_snapshot {op : HandlerOp ν} {next : HandlerState ν}
    (step : handlerStep cfg now h op = some next) :
    next.session.initialSnapshot = h.session.initialSnapshot := by
  cases op with
  | call method =>
    simp only [handlerStep] at step
    split at step
    · cases step
      cases method with
      | destroy =>
        simp only [callMethod]
        rw [afterDestroy_eq]
      | regenerate =>
        simp only [callMethod]
        rw [afterGenId_eq]
      | _ => rfl
    · cases step
  | _ =>
    cases step
    rfl

/-- A whole handler. -/
theorem handlerInv_runHandler {ops : List (Nat × HandlerOp ν)}
    (late : ∀ op ∈ ops, limit ≤ op.1 + cfg.ttlMs) :
    ∀ {h : HandlerState ν} {t : HandlerTrace ν}, HandlerInv limit s h t →
      HandlerInv limit s (runHandler cfg h ops) (traceHandler cfg h t ops) ∧
        (runHandler cfg h ops).session.initialSnapshot = h.session.initialSnapshot := by
  induction ops with
  | nil => exact fun inv => ⟨inv, rfl⟩
  | cons op ops ih =>
    intro h t inv
    obtain ⟨now, op⟩ := op
    rw [List.forall_mem_cons] at late
    simp only [runHandler, traceHandler]
    cases step : handlerStep cfg now h op with
    | none => exact ⟨inv, rfl⟩
    | some next =>
      obtain ⟨inv', snapshot⟩ := ih late.2 (handlerInv_step inv late.1 step)
      exact ⟨inv', snapshot.trans (handlerStep_snapshot step)⟩

end Step

/-! ## The end of a request -/

section Finish

variable {cfg : SessionConfig} {first limit now : Nat} {s : SequentialState ν}
  {request : SequentialRequest ν} {r : RequestSession ν}

theorem handlerInv_handled (inv : SequentialInv (first + cfg.ttlMs) s)
    (within : request.Within first (first + cfg.ttlMs)) :
    HandlerInv (first + cfg.ttlMs) s (handled cfg s request) (handledTrace cfg s request) ∧
      (handled cfg s request).session.initialSnapshot
        = (beginRequest cfg s request.start).session.initialSnapshot :=
  handlerInv_runHandler (fun op member => Nat.add_le_add_right (within.ops op member) _)
    (handlerInv_beginRequest inv within.start)

theorem populated_of_contents (plain : Plain r.data) {key : Text} (ordinary : ¬Reserved key)
    (filled : contents r.data key ≠ none) : r.populated = true := by
  rw [← plain.get_snapshotKeys ordinary] at filled
  unfold RequestSession.populated
  unfold Assoc.get at filled
  cases entries : (snapshotKeys r.data).entries with
  | nil => simp [entries, Assoc.find] at filled
  | cons e rest => rfl

variable [DecidableEq ν]

theorem finishAction_set (alive : r.destroyed = false)
    (worth : r.populated = true ∨ cfg.saveUninitialized = true)
    (write : r.changed = true ∨ cfg.resave = true) : r.finishAction cfg = .set := by
  rcases worth with worth | worth <;> rcases write with write | write <;>
    simp [RequestSession.finishAction, alive, worth, write]

theorem finishAction_ne_set (unchanged : r.changed = false) (lazy : cfg.resave = false) :
    r.finishAction cfg ≠ .set := by
  simp only [RequestSession.finishAction, unchanged, lazy]
  cases cfg.rolling <;> simp
  split_ifs <;> simp

theorem kept_finish {store : MemoryStore ν} (action : r.finishAction cfg ≠ .set) (sid : Nat) :
    (r.finish cfg now store).kept sid = store.kept sid := by
  unfold RequestSession.finish
  split
  · rfl
  · contradiction
  · rw [MemoryStore.kept_touch]

theorem StoreInv.finish {n : Nat} {store : MemoryStore ν} (inv : StoreInv limit n store)
    (issued : r.sid < n) (late : limit ≤ now + cfg.ttlMs) :
    StoreInv limit n (r.finish cfg now store) := by
  unfold RequestSession.finish
  split
  · exact inv
  · exact inv.set _ late issued
  · exact inv.touch late

theorem sequentialInv_serveRequest (inv : SequentialInv (first + cfg.ttlMs) s)
    (within : request.Within first (first + cfg.ttlMs)) :
    SequentialInv (first + cfg.ttlMs) (serveRequest cfg s request) := by
  have handled := (handlerInv_handled inv within).1
  refine ⟨?_, fun sid same => (handled.held sid same).1⟩
  exact handled.store.finish handled.issued (Nat.add_le_add_right within.finish _)

/-- The invariant between requests holds in every run. -/
theorem sequentialInv_run {requests : List (SequentialRequest ν)}
    (within : ∀ r ∈ requests, r.Within first (first + cfg.ttlMs)) :
    SequentialInv (first + cfg.ttlMs) (runFrom (serveRequest cfg) .fresh requests) := by
  have fresh : SequentialInv (first + cfg.ttlMs) (SequentialState.fresh : SequentialState ν) := by
    constructor
    · intro sid entry found
      cases found
    · intro sid same
      cases same
  exact run_invariant_along (I := SequentialInv (first + cfg.ttlMs))
    (fun _ _ inv within => sequentialInv_serveRequest inv within) requests _ fresh
    ((along_iff_forall requests _).mpr within)

/-- Whether a session that is worth it, and has no value under the name of a method, is written. -/
theorem finishAction_iff {opened : RequestSession ν} (plain : Plain r.data)
    (alive : r.destroyed = false) (snapshot : r.initialSnapshot = opened.initialSnapshot)
    (ordinary : ∀ key, Reserved key → contents r.data key = none)
    (worth : (∃ key, contents r.data key ≠ none) ∨ cfg.saveUninitialized = true) :
    r.finishAction cfg = .set ↔
      cfg.resave = true ∨ (snapshotKeys r.data).entries ≠ opened.initialSnapshot := by
  have changed : r.changed = true ↔ (snapshotKeys r.data).entries ≠ opened.initialSnapshot := by
    rw [← snapshot]
    simp [RequestSession.changed]
  have worth : r.populated = true ∨ cfg.saveUninitialized = true := by
    refine worth.imp_left ?_
    rintro ⟨key, filled⟩
    exact populated_of_contents plain (fun reserved => filled (ordinary key reserved)) filled
  rw [← changed]
  constructor
  · intro set
    by_contra neither
    simp only [not_or, Bool.not_eq_true] at neither
    exact finishAction_ne_set neither.2 neither.1 set
  · exact fun write => finishAction_set alive worth write.symm

/-- Without `destroy()`. -/
theorem carriesOver_iff (inv : SequentialInv (first + cfg.ttlMs) s)
    (within : request.Within first (first + cfg.ttlMs)) (soon : now < first + cfg.ttlMs)
    (alive : (handledTrace cfg s request).destroyed = false)
    (worth : Worth cfg (handled cfg s request)) :
    CarriesOver (handled cfg s request) (beginRequest cfg (serveRequest cfg s request) now) ↔
      HandsOn cfg (handledTrace cfg s request) (beginRequest cfg s request.start).session
        (handled cfg s request).session := by
  obtain ⟨ended, snapshot⟩ := handlerInv_handled inv within
  have served := sequentialInv_serveRequest inv within
  have undestroyed : (handled cfg s request).session.destroyed = false := ended.destroyed.trans alive
  constructor
  · rintro ⟨id, same⟩
    rcases cookie_cases (serveRequest cfg s request) with ⟨sid, data, cookie, kept⟩ | none
    · rw [beginRequest_loaded served soon cookie kept] at id same
      obtain rfl : sid = (handled cfg s request).session.sid := id
      have ordinary : ∀ key, Reserved key → contents (handled cfg s request).session.data key = none :=
        fun key reserved => (same key).symm.trans (contents_openSession_reserved _ _ _ reserved)
      refine ⟨ordinary, ended.current.mp cookie, ?_⟩
      by_cases action : (handled cfg s request).session.finishAction cfg = .set
      · rcases (finishAction_iff ended.plain undestroyed snapshot ordinary worth).mp action with
          resave | changed
        · exact .inl resave
        · exact .inr (.inl changed)
      · refine .inr (.inr ⟨data, ?_, fun key ordinary => ?_⟩)
        · rw [← ended.saved, ← kept_finish action]
          exact kept
        · rw [← same key, contents_openSession_loaded _ _ _ ordinary]
    · rw [beginRequest_new served soon none] at id
      have new : (handled cfg s request).nextId = (handled cfg s request).session.sid := id
      exact absurd ended.issued (new ▸ Nat.lt_irrefl _)
  · rintro ⟨ordinary, current, written⟩
    have cookie : (serveRequest cfg s request).cookie = some (handled cfg s request).session.sid :=
      ended.current.mpr current
    obtain ⟨data, kept, same⟩ : ∃ data, (serveRequest cfg s request).store.kept
        (handled cfg s request).session.sid = some data ∧ ∀ key, ¬Reserved key →
          data.get key = contents (handled cfg s request).session.data key := by
      by_cases action : (handled cfg s request).session.finishAction cfg = .set
      · refine ⟨snapshotKeys (handled cfg s request).session.data, ?_, fun key ordinary =>
          ended.plain.get_snapshotKeys ordinary⟩
        simp [serveRequest, RequestSession.finish, action, MemoryStore.kept_set]
      · rcases written with resave | changed | ⟨data, saved, same⟩
        · exact absurd ((finishAction_iff ended.plain undestroyed snapshot ordinary worth).mpr
            (.inl resave)) action
        · exact absurd ((finishAction_iff ended.plain undestroyed snapshot ordinary worth).mpr
            (.inr changed)) action
        · exact ⟨data, (kept_finish action _).trans (ended.saved.trans saved), same⟩
    rw [beginRequest_loaded served soon cookie kept]
    refine ⟨rfl, fun key => ?_⟩
    by_cases reserved : Reserved key
    · rw [ordinary key reserved]
      exact contents_openSession_reserved _ _ _ reserved
    · rw [← same key reserved]
      exact contents_openSession_loaded _ (serveRequest cfg s request).nextId data reserved

/-- After `destroy()`. -/
theorem startsAfresh_iff (inv : SequentialInv (first + cfg.ttlMs) s)
    (within : request.Within first (first + cfg.ttlMs)) (soon : now < first + cfg.ttlMs)
    (destroyed : (handledTrace cfg s request).destroyed = true) :
    StartsAfresh (handledTrace cfg s request).known
        (beginRequest cfg (serveRequest cfg s request) now) ↔
      StaysDestroyed (handledTrace cfg s request) := by
  have ended := (handlerInv_handled inv within).1
  have served := sequentialInv_serveRequest inv within
  have store : (serveRequest cfg s request).store = (handled cfg s request).store := by
    simp [serveRequest, RequestSession.finish, RequestSession.finishAction, ended.destroyed, destroyed]
  constructor
  · rintro ⟨later, empty⟩ current data saved
    have cookie : (serveRequest cfg s request).cookie = some (handled cfg s request).session.sid :=
      ended.current.mpr current
    have kept : (serveRequest cfg s request).store.kept (handled cfg s request).session.sid
        = some data := by
      rw [store, ended.saved, saved]
    rw [beginRequest_loaded served soon cookie kept] at later empty
    refine ⟨ended.renewed.mp later, fun key ordinary => ?_⟩
    exact (contents_openSession_loaded _ (serveRequest cfg s request).nextId data ordinary).symm.trans
      (empty key)
  · intro stays
    rcases cookie_cases (serveRequest cfg s request) with ⟨sid, data, cookie, kept⟩ | none
    · rw [beginRequest_loaded served soon cookie kept]
      rw [store] at kept
      obtain rfl : sid = (handled cfg s request).session.sid := by
        rcases (ended.held sid cookie).2 with current | gone
        · exact current
        · rw [gone] at kept
          cases kept
      obtain ⟨renewed, empty⟩ := stays (ended.current.mp cookie) data (ended.saved.symm.trans kept)
      refine ⟨ended.renewed.mpr renewed, fun key => ?_⟩
      by_cases reserved : Reserved key
      · exact contents_openSession_reserved _ _ _ reserved
      · rw [contents_openSession_loaded _ _ _ reserved, empty key reserved]
    · rw [beginRequest_new served soon none]
      exact ⟨ended.later, contents_openSession_new cfg _⟩

/-- After every run of requests within the ttl, a request hands its session over to the next one
exactly when it keeps it. -/
theorem sequential_handover_iff (cfg : SessionConfig) (first now : Nat)
    (requests : List (SequentialRequest ν)) (request : SequentialRequest ν)
    (within : ∀ r ∈ requests ++ [request], r.Within first (first + cfg.ttlMs))
    (soon : now < first + cfg.ttlMs) :
    let s := runFrom (serveRequest cfg) .fresh requests
    HandedOver cfg (handledTrace cfg s request) (handled cfg s request)
        (beginRequest cfg (serveRequest cfg s request) now) ↔
      KeepsSession cfg (handledTrace cfg s request) (beginRequest cfg s request.start)
        (handled cfg s request) := by
  intro s
  rw [List.forall_mem_append, List.forall_mem_singleton] at within
  have inv : SequentialInv (first + cfg.ttlMs) s := sequentialInv_run within.1
  refine and_congr ?_ ?_
  · exact forall_congr' fun alive => forall_congr' fun worth =>
      carriesOver_iff inv within.2 soon alive worth
  · exact forall_congr' fun destroyed => startsAfresh_iff inv within.2 soon destroyed

end Finish

/-! ## Instances -/

/-- The options `session()` uses when it is given none. -/
def SessionConfig.defaults : SessionConfig := ⟨86400000, false, false, true⟩

/-- A handler that logs a user in. -/
def loginRequest : SequentialRequest Nat :=
  ⟨0, [(1, .assign "user".toList 7), (2, .call .regenerate), (3, .sendHeaders)], 4⟩

/-- A handler that logs the user out and saves the empty session. -/
def logoutRequest : SequentialRequest Nat := ⟨5, [(6, .call .destroy), (7, .call .save)], 8⟩

/-- The session of a user who logs in is handed over, and after the logout the next one is new. -/
theorem sequential_handover_login :
    let cfg := SessionConfig.defaults
    let s := runFrom (serveRequest cfg) .fresh []
    let s' := runFrom (serveRequest cfg) .fresh [loginRequest]
    HandedOver cfg (handledTrace cfg s loginRequest) (handled cfg s loginRequest)
        (beginRequest cfg (serveRequest cfg s loginRequest) 5) ∧
      HandedOver cfg (handledTrace cfg s' logoutRequest) (handled cfg s' logoutRequest)
        (beginRequest cfg (serveRequest cfg s' logoutRequest) 9) := by
  have login : loginRequest.Within 0 (0 + SessionConfig.defaults.ttlMs) :=
    ⟨by decide, by decide, by decide⟩
  have logout : logoutRequest.Within 0 (0 + SessionConfig.defaults.ttlMs) :=
    ⟨by decide, by decide, by decide⟩
  constructor
  · refine (sequential_handover_iff .defaults 0 5 [] loginRequest ?_ (by decide)).mpr
      ⟨fun _ _ => ⟨?_, by decide, .inr (.inl (by decide))⟩, fun destroyed => ?_⟩
    · simpa using login
    · rintro key ⟨method, rfl⟩
      cases method <;> decide
    · exact absurd destroyed (by decide)
  · refine (sequential_handover_iff .defaults 0 9 [loginRequest] logoutRequest ?_ (by decide)).mpr
      ⟨fun alive => absurd alive (by decide), fun _ current => ?_⟩
    · simpa using ⟨login, logout⟩
    · exact absurd current (by decide)

/-- With `saveUninitialized` an untouched new session is only touched, never stored; an edit after
`save()` that restores the first contents is not written; and a value assigned under the name of a
method is not enumerable, so it is not stored. -/
theorem session_not_handed_over :
    (let cfg : SessionConfig := ⟨86400000, false, true, true⟩
      let request : SequentialRequest Nat := ⟨0, [], 1⟩
      ¬HandedOver cfg (handledTrace cfg .fresh request) (handled cfg .fresh request)
        (beginRequest cfg (serveRequest cfg .fresh request) 2)) ∧
    (let cfg := SessionConfig.defaults
      let s := serveRequest cfg .fresh ⟨0, [(1, .assign "x".toList 0)], 2⟩
      let request : SequentialRequest Nat :=
        ⟨3, [(4, .assign "x".toList 1), (5, .call .save), (6, .assign "x".toList 0)], 7⟩
      ¬HandedOver cfg (handledTrace cfg s request) (handled cfg s request)
        (beginRequest cfg (serveRequest cfg s request) 8)) ∧
    (let cfg := SessionConfig.defaults
      let request : SequentialRequest Nat :=
        ⟨0, [(1, .assign "user".toList 7), (2, .assign "save".toList 1)], 3⟩
      ¬HandedOver cfg (handledTrace cfg .fresh request) (handled cfg .fresh request)
        (beginRequest cfg (serveRequest cfg .fresh request) 4)) := by
  refine ⟨fun handed => ?_, fun handed => ?_, fun handed => ?_⟩
  · exact absurd (handed.1 (by decide) (.inr rfl)).1 (by decide)
  · exact absurd ((handed.1 (by decide) (.inl ⟨"x".toList, by decide⟩)).2 "x".toList) (by decide)
  · exact absurd ((handed.1 (by decide) (.inl ⟨"user".toList, by decide⟩)).2 "save".toList) (by decide)

end QjsLws.Session
