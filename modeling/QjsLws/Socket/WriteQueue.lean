import Mathlib.Algebra.Group.Int.Defs
import Mathlib.Algebra.GroupWithZero.Nat
import QjsLws.Misc.Run

/-!
# The native write queue

Model of `lws-socket.c`: `WriteChunk`, `socket_write_queue_clear`, `socket_flush` and
`lwsjs_socket_write`, and of the flush that `lwsjs_callback_protocol` (`lws-protocol.c`) makes
first on every writeable reason. What libwebsockets answers is the parameter `Lws`; what it
was asked is recorded in `log`. Allocation failure is left out.
-/

namespace QjsLws.Socket

/-- `enum lws_write_protocol`: the values the source names, any other `int` is `other`. -/
inductive WriteProtocol where
  | text
  | binary
  | http
  | httpFinal
  | other (code : Int)
  deriving DecidableEq, Repr

/-- The protocol a numeric `wsi.write` argument stands for. -/
def WriteProtocol.ofInt32 : Int → WriteProtocol
  | 0 => .text
  | 1 => .binary
  | 3 => .http
  | 7 => .httpFinal
  | code => .other code

/-- The bytes of a `lws_sockaddr46`. -/
abbrev SockAddr46 := List UInt8

/-- `WriteChunk`: `data` is the payload at `buf + LWS_PRE` (its length is `len`), `addr` is
`addr` with `has_addr`. -/
structure WriteChunk where
  data : List UInt8
  pos : Nat
  proto : WriteProtocol
  addr : Option SockAddr46
  deriving DecidableEq, Repr

/-- `is_ws_message` of `socket_flush`. -/
def isWsMessage (proto : WriteProtocol) : Bool := proto ≠ .http && proto ≠ .httpFinal

/-- `HTTP_WRITE_CHUNK_MAX`. -/
def httpWriteChunkMax : Nat := 16384

/-- One call into libwebsockets. A `write` carries the queue entry it was made for. -/
inductive LwsCall where
  | write (chunk : WriteChunk) (bytes : List UInt8) (wp : WriteProtocol) (result : Int)
  | transactionCompleted
  | callbackOnWritable
  deriving DecidableEq, Repr

/-- The answers of libwebsockets, one for every round of the flush loop. A write reports an
error or at most as many bytes as it was given. -/
structure Lws where
  wsiIsUdp : Bool
  partialBuffered : Nat → Bool
  write : Nat → List UInt8 → WriteProtocol → Int
  transactionCompleted : Nat → Bool
  write_le : ∀ round bytes wp, write round bytes wp ≤ bytes.length

/-- The part of `LWSSocket` (and of its wsi) that the write path uses. `writableRequested` is
libwebsockets' own note of a `lws_callback_on_writable` not answered yet, `rounds` numbers the
rounds of the flush loop. -/
structure LWSSocket where
  wsi : Bool
  udpPeer : Option SockAddr46
  completed : Bool
  writeQueue : List WriteChunk
  writeBuffered : Nat
  writableRequested : Bool
  rounds : Nat
  log : List LwsCall
  deriving DecidableEq, Repr

/-- A freshly attached socket. -/
def LWSSocket.fresh : LWSSocket :=
  { wsi := true, udpPeer := none, completed := false, writeQueue := [], writeBuffered := 0,
    writableRequested := false, rounds := 0, log := [] }

/-- Subtraction of `size_t`, which wraps below zero. -/
def sizeSub (a b : Nat) : Nat := if b ≤ a then a - b else a + 2 ^ 64 - b

/-- `socket_write_queue_clear`. -/
def socketWriteQueueClear (s : LWSSocket) : LWSSocket := { s with writeQueue := [], writeBuffered := 0 }

/-- The length and protocol of the next `lws_write` for a chunk: an HTTP body write is capped,
and a capped write of a FINAL chunk is not FINAL yet. -/
def nextWrite (wc : WriteChunk) : Nat × WriteProtocol :=
  let remaining := wc.data.length - wc.pos
  if !isWsMessage wc.proto && remaining > httpWriteChunkMax then
    (httpWriteChunkMax, if wc.proto = .httpFinal then .http else wc.proto)
  else (remaining, wc.proto)

/-- How one round of the `while` loop ends. -/
inductive FlushStep where
  | again (s : LWSSocket)
  | stop (s : LWSSocket)
  | dead (s : LWSSocket)
  deriving DecidableEq, Repr

/-- The bookkeeping after `lws_write` took `n` bytes of `wc`, the head of the queue. -/
def afterWrite (lws : Lws) (s : LWSSocket) (wc : WriteChunk) (rest : List WriteChunk)
    (remaining n : Nat) : FlushStep :=
  let pos := if isWsMessage wc.proto then wc.data.length else wc.pos + n
  let buffered := sizeSub s.writeBuffered (if isWsMessage wc.proto then remaining else n)
  if pos ≥ wc.data.length then
    if wc.proto = .httpFinal then
      .again { s with
        writeQueue := rest
        writeBuffered := buffered
        completed := s.completed || lws.transactionCompleted s.rounds
        rounds := s.rounds + 1
        log := s.log ++ [.transactionCompleted] }
    else .again { s with writeQueue := rest, writeBuffered := buffered, rounds := s.rounds + 1 }
  else
    let s := { s with
      writeQueue := { wc with pos := pos } :: rest
      writeBuffered := buffered
      rounds := s.rounds + 1 }
    -- The chunk still has payload but the call made no progress: wait.
    if n = 0 then .stop s else .again s

/-- The UDP branch of `socket_flush`: `udp->sa46 = udp->sa46_pending = wc->addr`. -/
def selectPeer (lws : Lws) (s : LWSSocket) (wc : WriteChunk) : LWSSocket :=
  { s with udpPeer := if lws.wsiIsUdp then wc.addr.or s.udpPeer else s.udpPeer }

/-- One round of the loop of `socket_flush`. -/
def flushStep (lws : Lws) (s : LWSSocket) : FlushStep :=
  match s.writeQueue with
  | [] => .stop s
  | wc :: rest =>
    if lws.partialBuffered s.rounds then .stop { s with rounds := s.rounds + 1 }
    else
      let (remaining, wp) := nextWrite wc
      let s := selectPeer lws s wc
      let bytes := (wc.data.drop wc.pos).take remaining
      let n := lws.write s.rounds bytes wp
      let s := { s with log := s.log ++ [.write wc bytes wp n] }
      if n < 0 then .dead { socketWriteQueueClear s with rounds := s.rounds + 1 }
      else afterWrite lws s wc rest remaining n.toNat

/-- The loop of `socket_flush`, cut off after `fuel` rounds. The flag says that the loop was
left by the `return` of the error branch. -/
def flushLoop (lws : Lws) : Nat → LWSSocket → Option (LWSSocket × Bool)
  | 0, _ => none
  | fuel + 1, s =>
    match flushStep lws s with
    | .again s' => flushLoop lws fuel s'
    | .stop s' => some (s', false)
    | .dead s' => some (s', true)

/-- A bound on the rounds the loop takes on a queue. -/
def queueWork (queue : List WriteChunk) : Nat :=
  (queue.map fun wc => wc.data.length - wc.pos + 1).sum

/-- `socket_flush`. -/
def socketFlush (lws : Lws) (s : LWSSocket) : LWSSocket :=
  if !s.wsi then s
  else
    match flushLoop lws (queueWork s.writeQueue + 1) s with
    | none => s
    | some (s, true) => s
    | some (s, false) =>
      if s.writeQueue = [] then s
      else { s with writableRequested := true, log := s.log ++ [.callbackOnWritable] }

/-- The first argument of `wsi.write`: a string (its UTF-8 bytes), an `ArrayBuffer`, or
anything else (a typed array, a `DataView`, ...). -/
inductive WriteData where
  | string (utf8 : List UInt8)
  | arrayBuffer (bytes : List UInt8)
  | other
  deriving DecidableEq, Repr

/-- A further argument of `wsi.write`; a number is given by its `int32` value. -/
inductive WriteArg where
  | number (n : Int)
  | sockAddr (sa : SockAddr46)
  | other
  deriving DecidableEq, Repr

/-- `len`/`have_len`, `proto`/`have_proto` and `sa` of `lwsjs_socket_write`. -/
structure WriteOptions where
  len : Option Int
  proto : Option Int
  sa : Option SockAddr46
  deriving DecidableEq, Repr

/-- The argument loop of `lwsjs_socket_write`. -/
def scanWriteArgs (opts : WriteOptions) : List WriteArg → WriteOptions
  | [] => opts
  | .number n :: rest =>
    if opts.len.isNone && !rest.isEmpty then scanWriteArgs { opts with len := some n } rest
    else if opts.proto.isNone then scanWriteArgs { opts with proto := some n } rest
    else opts
  | .sockAddr sa :: rest =>
    if opts.sa.isNone then scanWriteArgs { opts with sa := some sa } rest else opts
  | .other :: _ => opts

/-- An `int32` stored into a `size_t`. -/
def sizeOfInt32 (n : Int) : Nat := if n < 0 then (2 ^ 64 + n).toNat else n.toNat

/-- The chunk that one `wsi.write` call queues. -/
def writeChunkOf (roleWs text : Bool) (buf : List UInt8) (args : List WriteArg) : WriteChunk :=
  let opts := scanWriteArgs ⟨none, none, none⟩ args
  let proto :=
    match opts.proto with
    | some code => .ofInt32 code
    | none => if roleWs then if text then .text else .binary else .http
  let len := match opts.len with | some n => sizeOfInt32 n | none => buf.length
  { data := buf.take (min len buf.length), pos := 0, proto, addr := opts.sa }

/-- `list_add_tail` of the chunk, `write_buffered += len` and the flush. The addition does not
wrap: every byte it counts is held in memory. -/
def queueAndFlush (lws : Lws) (s : LWSSocket) (wc : WriteChunk) : LWSSocket :=
  socketFlush lws { s with
    writeQueue := s.writeQueue ++ [wc]
    writeBuffered := s.writeBuffered + wc.data.length }

/-- `lwsjs_socket_write`: the number it returns or the exception it throws, and the socket
afterwards. `roleWs` is the answer of `lwsi_role_ws` to this call. -/
def lwsjsSocketWrite (lws : Lws) (s : LWSSocket) (roleWs : Bool) (data : WriteData)
    (args : List WriteArg) : Except String Nat × LWSSocket :=
  if !s.wsi then (.error "InternalError: lwsjs_socket_write: s->wsi == NULL", s)
  else
    match data with
    | .other => (.error "TypeError: wsi.write: expected string or ArrayBuffer", s)
    | .string buf =>
      let wc := writeChunkOf roleWs true buf args
      (.ok wc.data.length, queueAndFlush lws s wc)
    | .arrayBuffer buf =>
      let wc := writeChunkOf roleWs false buf args
      (.ok wc.data.length, queueAndFlush lws s wc)

/-- What can happen to the write side of a live wsi. -/
inductive WriteOp where
  | write (roleWs : Bool) (data : WriteData) (args : List WriteArg)
  | writeable
  deriving DecidableEq, Repr

/-- A WRITEABLE callback answers the outstanding request and flushes before anything else. -/
def writeStep (lws : Lws) (s : LWSSocket) : WriteOp → LWSSocket
  | .write roleWs data args => (lwsjsSocketWrite lws s roleWs data args).2
  | .writeable => socketFlush lws { s with writableRequested := false }

end QjsLws.Socket
