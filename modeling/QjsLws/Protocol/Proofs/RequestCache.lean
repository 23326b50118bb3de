import QjsLws.Protocol.RequestCache

/-!
# Freshness of the request metadata

A handler sees the transaction it is called for as soon as `LWS_CALLBACK_HTTP` was delivered for
it, or when nothing had been cached before it. A callback that comes before `LWS_CALLBACK_HTTP`
on a wsi whose cache is filled reads the request of an earlier transaction, and an upgrade never
goes through `LWS_CALLBACK_HTTP` at all.
-/

namespace QjsLws.Protocol

/-- Every field of the cache is unset or comes from the given transaction. -/
structure Own (number : Nat) (request : HttpRequest) (cache : RequestCache) : Prop where
  headers : ∀ c, cache.headers = some c → c = ⟨request.headers, number⟩
  uri : ∀ c, cache.uri = some c → request.uri = some c.value ∧ c.origin = number
  method : ∀ c, cache.method = some c → request.method = some c.value ∧ c.origin = number

/-- What an observation has to satisfy: it is about its own transaction, and the request built
for an upgrade hook is the one being upgraded. -/
def Seen.Fresh (seen : Seen) : Prop :=
  Own seen.number seen.request seen.cache ∧
    (seen.reason = .httpConfirmUpgrade → ∀ tls, requestFromWsi tls seen.cache =
      requestFromWsi tls (cacheFill seen.number seen.request .http .empty))

/-- Nothing is delivered to a handler before the `LWS_CALLBACK_HTTP` of the transaction. -/
def Exchange.Quiet (e : Exchange) : Prop :=
  ∀ cb ∈ e.callbacks.takeWhile (·.reason ≠ .http), cb.handler = false

/-- Some callback of the transaction fills the cache. -/
def Exchange.caches (e : Exchange) : Bool := e.callbacks.any (isCachingReason ·.reason)

/-- Every transaction is quiet before its `LWS_CALLBACK_HTTP`, except while no transaction
before it has filled the cache. -/
def HttpFirst (cached : Bool) : List Exchange → Prop
  | [] => True
  | e :: exchanges => (cached = false ∨ e.Quiet) ∧ HttpFirst (cached || e.caches) exchanges

theorem own_empty (number : Nat) (request : HttpRequest) : Own number request .empty :=
  ⟨by simp [RequestCache.empty], by simp [RequestCache.empty], by simp [RequestCache.empty]⟩

theorem own_cacheFill {number : Nat} {request : HttpRequest} {cache : RequestCache}
    (own : Own number request cache) (reason : Reason) :
    Own number request (cacheFill number request reason cache) := by
  unfold cacheFill
  split
  · refine ⟨fun c h => ?_, fun c h => ?_, fun c h => ?_⟩
    · cases field : cache.headers with
      | none => simpa [field, eq_comm] using h
      | some d => exact own.headers c (by simpa [field] using h)
    · cases field : cache.uri with
      | none =>
        simp only [field, Option.none_or, Option.map_eq_some_iff] at h
        obtain ⟨value, found, rfl⟩ := h
        exact ⟨found, rfl⟩
      | some d => exact own.uri c (by simpa [field] using h)
    · cases field : cache.method with
      | none =>
        simp only [field, Option.none_or, Option.map_eq_some_iff] at h
        obtain ⟨value, found, rfl⟩ := h
        exact ⟨found, rfl⟩
      | some d => exact own.method c (by simpa [field] using h)
  · exact own

theorem own_cacheDispatch {number : Nat} {request : HttpRequest} {cache : RequestCache}
    {reason : Reason} (own : Own number request cache ∨ reason = .http) :
    Own number request (cacheDispatch number request reason cache) := by
  apply own_cacheFill
  rcases own with own | rfl
  · unfold cacheReset
    split
    · exact own_empty number request
    · exact own
  · exact own_empty number request

/-- On an own cache the upgrade hook gets the request that is being upgraded. -/
theorem requestFromWsi_own {number : Nat} {request : HttpRequest} {cache : RequestCache}
    (own : Own number request cache) (tls : Bool) :
    requestFromWsi tls (cacheDispatch number request .httpConfirmUpgrade cache) =
      requestFromWsi tls (cacheFill number request .http .empty) := by
  have dispatched : cacheDispatch number request .httpConfirmUpgrade cache =
      cacheFill number request .httpConfirmUpgrade cache := rfl
  have headers : cache.headers.or (some ⟨request.headers, number⟩) =
      some ⟨request.headers, number⟩ := by
    cases field : cache.headers with
    | none => rfl
    | some c => simp [own.headers c field]
  have uri : cache.uri.or (request.uri.map (⟨·, number⟩)) = request.uri.map (⟨·, number⟩) := by
    cases field : cache.uri with
    | none => rfl
    | some c =>
      obtain ⟨found, rfl⟩ := own.uri c field
      simp [found]
  have method : cache.method.or (request.method.map (⟨·, number⟩)) =
      request.method.map (⟨·, number⟩) := by
    cases field : cache.method with
    | none => rfl
    | some c =>
      obtain ⟨found, rfl⟩ := own.method c field
      simp [found]
  rw [dispatched]
  simp only [requestFromWsi, cacheFill, isCachingReason, isHeadersReason, headers, uri, method,
    RequestCache.empty, Bool.true_or, Bool.false_or, decide_true, if_true, Option.none_or]

theorem seen_fresh_of_own {number : Nat} {request : HttpRequest} {cache : RequestCache}
    {reason : Reason} (own : Own number request cache ∨ reason = .http) :
    Seen.Fresh ⟨number, request, reason, cacheDispatch number request reason cache⟩ := by
  refine ⟨own_cacheDispatch own, ?_⟩
  rintro rfl tls
  rcases own with own | impossible
  · exact requestFromWsi_own own tls
  · cases impossible

/-- A transaction that starts on an own cache, or stays quiet until its `LWS_CALLBACK_HTTP`, is
seen fresh throughout. -/
theorem exchangeRun_fresh {number : Nat} {request : HttpRequest} :
    ∀ (cbs : List Callback) (cache : RequestCache),
      (Own number request cache ∨
        ∀ cb ∈ cbs.takeWhile (·.reason ≠ .http), cb.handler = false) →
      ∀ seen ∈ (exchangeRun number request cache cbs).2, seen.Fresh := by
  intro cbs
  induction cbs with
  | nil => intro cache _ seen member; simp [exchangeRun] at member
  | cons cb cbs ih =>
    intro cache start seen member
    simp only [exchangeRun] at member
    by_cases known : Own number request cache ∨ cb.reason = .http
    · have rest := ih _ (.inl (own_cacheDispatch known))
      split at member
      · rcases List.mem_cons.mp member with rfl | member
        · exact seen_fresh_of_own known
        · exact rest seen member
      · exact rest seen member
    · obtain ⟨stale, early⟩ := not_or.mp known
      have quiet := start.resolve_left stale
      rw [List.takeWhile_cons_of_pos (by simpa using early)] at quiet
      rw [if_neg (by simp [quiet cb (by simp)])] at member
      exact ih _ (.inr fun c h => quiet c (List.mem_cons_of_mem _ h)) seen member

/-- The headers cached by an earlier transaction. -/
def Stale (number : Nat) (cache : RequestCache) : Prop :=
  ∃ c, cache.headers = some c ∧ c.origin < number

theorem stale_cacheDispatch {number : Nat} {request : HttpRequest} {cache : RequestCache}
    {reason : Reason} (stale : Stale number cache) (early : reason ≠ .http) :
    Stale number (cacheDispatch number request reason cache) := by
  obtain ⟨c, found, lt⟩ := stale
  refine ⟨c, ?_, lt⟩
  simp only [cacheDispatch, cacheReset, if_neg early, cacheFill]
  split
  · simp [found]
  · exact found

/-- A stale cache shows in every handler called before `LWS_CALLBACK_HTTP`. -/
theorem exchangeRun_stale {number : Nat} {request : HttpRequest} :
    ∀ (cbs : List Callback) (cache : RequestCache), Stale number cache →
      (∀ seen ∈ (exchangeRun number request cache cbs).2, seen.Fresh) →
      ∀ cb ∈ cbs.takeWhile (·.reason ≠ .http), cb.handler = false := by
  intro cbs
  induction cbs with
  | nil => intro cache _ _ cb member; simp at member
  | cons cb cbs ih =>
    intro cache stale fresh
    by_cases early : cb.reason = .http
    · simp [early]
    · have still := @stale_cacheDispatch number request cache cb.reason stale early
      simp only [exchangeRun] at fresh
      rw [List.takeWhile_cons_of_pos (by simpa using early)]
      cases handled : cb.handler with
      | true =>
        rw [handled, if_pos rfl] at fresh
        obtain ⟨own, -⟩ := fresh _ List.mem_cons_self
        obtain ⟨c, found, lt⟩ := still
        have origin := own.headers c found
        rw [origin] at lt
        exact absurd lt (Nat.lt_irrefl _)
      | false =>
        rw [handled, if_neg (by simp)] at fresh
        intro d member
        rcases List.mem_cons.mp member with rfl | member
        · exact handled
        · exact ih _ still fresh d member

/-- The cache before transaction `number`: filled by an earlier transaction, or still empty. -/
def Before (cached : Bool) (number : Nat) (cache : RequestCache) : Prop :=
  if cached then Stale number cache else cache = .empty

/-- A cache that holds headers of this transaction or of an earlier one. -/
def Filled (number : Nat) (cache : RequestCache) : Prop :=
  ∃ c, cache.headers = some c ∧ c.origin ≤ number

theorem filled_cacheDispatch {number : Nat} {request : HttpRequest} {cache : RequestCache}
    {reason : Reason} (filled : Filled number cache ∨
      (cache = .empty ∧ isCachingReason reason = true)) :
    Filled number (cacheDispatch number request reason cache) := by
  rcases filled with ⟨c, found, le⟩ | ⟨rfl, caching⟩
  · by_cases http : reason = .http
    · subst http
      exact ⟨⟨request.headers, number⟩, rfl, Nat.le_refl _⟩
    · refine ⟨c, ?_, le⟩
      simp only [cacheDispatch, cacheReset, if_neg http, cacheFill]
      split
      · simp [found]
      · exact found
  · refine ⟨⟨request.headers, number⟩, ?_, Nat.le_refl _⟩
    simp only [cacheDispatch, cacheReset, cacheFill, caching, if_true]
    split <;> rfl

theorem exchangeRun_filled (number : Nat) (request : HttpRequest) :
    ∀ (cbs : List Callback) (cache : RequestCache), Filled number cache →
      Filled number (exchangeRun number request cache cbs).1 := by
  intro cbs
  induction cbs with
  | nil => intro cache filled; exact filled
  | cons cb cbs ih => intro cache filled; exact ih _ (filled_cacheDispatch (.inl filled))

/-- A transaction leaves the cache empty only if it was and nothing cached. -/
theorem exchangeRun_empty (number : Nat) (request : HttpRequest) :
    ∀ cbs : List Callback,
      if cbs.any (isCachingReason ·.reason) then
        Filled number (exchangeRun number request .empty cbs).1
      else (exchangeRun number request .empty cbs).1 = .empty := by
  intro cbs
  induction cbs with
  | nil => simp [exchangeRun]
  | cons cb cbs ih =>
    cases caching : isCachingReason cb.reason with
    | true =>
      simp only [List.any_cons, caching, Bool.true_or, if_true]
      exact exchangeRun_filled number request cbs _ (filled_cacheDispatch (.inr ⟨rfl, caching⟩))
    | false =>
      have unchanged : cacheDispatch number request cb.reason .empty = .empty := by
        simp only [cacheDispatch, cacheFill, caching, Bool.false_eq_true, if_false, cacheReset]
        split <;> rfl
      simp only [List.any_cons, caching, Bool.false_or]
      simpa only [exchangeRun, unchanged] using ih

theorem before_next {cached : Bool} {number : Nat} {cache : RequestCache} {e : Exchange}
    (before : Before cached number cache) :
    Before (cached || e.caches) (number + 1)
      (exchangeRun number e.request cache e.callbacks).1 := by
  cases cached with
  | true =>
    obtain ⟨c, found, lt⟩ : Stale number cache := before
    obtain ⟨d, found', le⟩ := exchangeRun_filled number e.request e.callbacks cache
      ⟨c, found, Nat.le_of_lt lt⟩
    exact ⟨d, found', Nat.lt_succ_of_le le⟩
  | false =>
    have empty : cache = .empty := before
    subst empty
    have after := exchangeRun_empty number e.request e.callbacks
    rw [Bool.false_or]
    unfold Exchange.caches
    split at after
    · rename_i caching
      obtain ⟨d, found, le⟩ := after
      rw [caching]
      exact ⟨d, found, Nat.lt_succ_of_le le⟩
    · rename_i uncached
      rw [Bool.eq_false_iff.mpr uncached]
      exact after

theorem connectionRun_fresh_iff : ∀ (exchanges : List Exchange) (cached : Bool) (number : Nat)
    (cache : RequestCache), Before cached number cache →
      ((∀ seen ∈ connectionRun number cache exchanges, seen.Fresh) ↔
        HttpFirst cached exchanges) := by
  intro exchanges
  induction exchanges with
  | nil => intro cached number cache _; simp [connectionRun, HttpFirst]
  | cons e exchanges ih =>
    intro cached number cache before
    have next := ih _ (number + 1) _ (before_next (e := e) before)
    simp only [connectionRun, HttpFirst, List.mem_append, or_imp, forall_and, next]
    refine and_congr_left fun _ => ⟨fun fresh => ?_, fun start => ?_⟩
    · cases cached with
      | true => exact .inr (exchangeRun_stale e.callbacks cache before fresh)
      | false => exact .inl rfl
    · apply exchangeRun_fresh
      rcases start with rfl | quiet
      · have empty : cache = .empty := before
        subst empty
        exact .inl (own_empty _ _)
      · exact .inr quiet

/-- On every connection the metadata every handler sees is that of its own transaction exactly
when nothing is delivered to a handler ahead of `LWS_CALLBACK_HTTP` once the cache is filled. -/
theorem requestMetadata_fresh_iff (exchanges : List Exchange) :
    (∀ seen ∈ connectionRun 0 .empty exchanges, seen.Fresh) ↔ HttpFirst false exchanges :=
  connectionRun_fresh_iff exchanges false 0 .empty rfl

/-- A keep-alive request for `/public`, then an upgrade request for `/admin` on the same wsi:
the upgrade hook is handed the request for `/public`. -/
def staleUpgrade : List Exchange :=
  [{ request := ⟨[("host", "a")], none, some "/public", some 0⟩
     callbacks := [⟨.filterHttpConnection, false⟩, ⟨.http, true⟩] },
   { request := ⟨[("host", "a"), ("upgrade", "websocket")], none, some "/admin", some 0⟩
     callbacks := [⟨.filterHttpConnection, false⟩, ⟨.httpConfirmUpgrade, true⟩] }]

theorem staleUpgrade_not_fresh :
    ¬ (∀ seen ∈ connectionRun 0 .empty staleUpgrade, seen.Fresh) ∧
      (connectionRun 0 .empty staleUpgrade).map (fun seen => (requestFromWsi false seen.cache).url) =
        ["http://a/public", "http://a/public"] := by
  refine ⟨fun fresh => ?_, by decide⟩
  have seen := (fresh ⟨1, ⟨[("host", "a"), ("upgrade", "websocket")], none, some "/admin", some 0⟩,
    .httpConfirmUpgrade, cacheFill 0 ⟨[("host", "a")], none, some "/public", some 0⟩ .http
      .empty⟩ (by decide)).1.headers _ rfl
  revert seen
  decide

end QjsLws.Protocol
