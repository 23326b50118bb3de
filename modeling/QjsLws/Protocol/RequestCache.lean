import QjsLws.Protocol.Reason

/-!
# Request metadata cached on the socket

`LWSSocket` lives as long as the connection, and `lwsjs_callback_protocol` (`lws-protocol.c`)
caches on it what the header accessors of libwebsockets report. This file models the reset and
the fill of that cache, the getters `wsi.headers`, `wsi.uri`, `wsi.method` (`lwsjs_socket_get`)
and `requestFromWsi` (`serve.js`), over the transactions that one wsi carries. A cached value
keeps the number of the transaction it was read in.
-/

namespace QjsLws.Protocol

/-- What the accessors of libwebsockets report during the callbacks of one transaction: the
header object, the protocol token, and `lws_http_get_uri_and_method`. -/
structure HttpRequest where
  headers : List (String × String)
  proto : Option String
  uri : Option String
  method : Option Nat
  deriving DecidableEq, Repr

/-- A cached value and the transaction it comes from. -/
structure Cached (α : Type) where
  value : α
  origin : Nat
  deriving DecidableEq, Repr

/-- `headers`, `proto`, `uri` and `method` of `LWSSocket`; `none` is `JS_UNDEFINED`, `0`, `-1`. -/
structure RequestCache where
  headers : Option (Cached (List (String × String)))
  proto : Option (Cached String)
  uri : Option (Cached String)
  method : Option (Cached Nat)
  deriving DecidableEq, Repr

/-- The cache that `socket_alloc` sets up. -/
def RequestCache.empty : RequestCache := ⟨none, none, none, none⟩

/-- The reset on `LWS_CALLBACK_HTTP`. -/
def cacheReset (reason : Reason) (cache : RequestCache) : RequestCache :=
  if reason = .http then .empty else cache

/-- The reasons on which the cache is filled. -/
def isCachingReason (reason : Reason) : Bool := isHeadersReason reason || reason = .http

/-- The fill: a field is derived only while it is still unset. `lwsjs_socket_headers` also stores
the protocol token it meets. -/
def cacheFill (number : Nat) (request : HttpRequest) (reason : Reason) (cache : RequestCache) :
    RequestCache :=
  if isCachingReason reason then
    { headers := cache.headers.or (some ⟨request.headers, number⟩)
      proto :=
        if cache.headers.isNone then (request.proto.map (⟨·, number⟩)).or cache.proto
        else cache.proto
      uri := cache.uri.or (request.uri.map (⟨·, number⟩))
      method := cache.method.or (request.method.map (⟨·, number⟩)) }
  else cache

/-- The cache when the handler of the callback is called. -/
def cacheDispatch (number : Nat) (request : HttpRequest) (reason : Reason)
    (cache : RequestCache) : RequestCache :=
  cacheFill number request reason (cacheReset reason cache)

/-- One protocol callback; `handler` says that the protocol has a handler for the reason. -/
structure Callback where
  reason : Reason
  handler : Bool
  deriving DecidableEq, Repr

/-- A transaction: the request and the callbacks libwebsockets delivers for it, in order. -/
structure Exchange where
  request : HttpRequest
  callbacks : List Callback
  deriving DecidableEq, Repr

/-- What a handler could read: the callback it was called for, in which transaction, and the
cache behind the getters. -/
structure Seen where
  number : Nat
  request : HttpRequest
  reason : Reason
  cache : RequestCache
  deriving DecidableEq, Repr

/-- The callbacks of one transaction. -/
def exchangeRun (number : Nat) (request : HttpRequest) :
    RequestCache → List Callback → RequestCache × List Seen
  | cache, [] => (cache, [])
  | cache, cb :: cbs =>
    let cache' := cacheDispatch number request cb.reason cache
    let (last, seen) := exchangeRun number request cache' cbs
    (last, if cb.handler then ⟨number, request, cb.reason, cache'⟩ :: seen else seen)

/-- The transactions of one wsi, numbered from `number` on. -/
def connectionRun (number : Nat) (cache : RequestCache) : List Exchange → List Seen
  | [] => []
  | e :: exchanges =>
    let (cache', seen) := exchangeRun number e.request cache e.callbacks
    seen ++ connectionRun (number + 1) cache' exchanges

/-- `lwsjs_method_names`, with the uncommon headers and HTTP/2 compiled in. -/
def lwsjsMethodNames : List String :=
  ["GET", "POST", "OPTIONS", "PUT", "PATCH", "DELETE", "CONNECT", "HEAD", "COLON_PATH"]

/-- The `Request` that `requestFromWsi` builds. -/
structure UpgradeRequest where
  url : String
  method : String
  headers : List (String × String)
  deriving DecidableEq, Repr

/-- `requestFromWsi` (`serve.js`) on the getters of the wsi. -/
def requestFromWsi (tls : Bool) (cache : RequestCache) : UpgradeRequest :=
  let headers := (cache.headers.map Cached.value).getD []
  let scheme := if tls then "https" else "http"
  let host := (headers.lookup "host").getD "localhost"
  let method := (cache.method.bind fun m => lwsjsMethodNames[m.value]?).getD "GET"
  { url := scheme ++ "://" ++ host ++ (cache.uri.map Cached.value).getD "/"
    method, headers }

end QjsLws.Protocol
