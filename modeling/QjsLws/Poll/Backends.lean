import QjsLws.Misc.Run

/-!
# The two poll backends

`lwsjs_callback_pollfd` (`lws-protocol.c`) tells the event loop which descriptors lws waits for.
The default build registers one JS handler per descriptor and direction (`iohandler.h`); a build
with `USE_EPOLL` keeps one epoll instance (`lws-epoll.c`) and registers only that one. Allocations
and the `epoll_ctl` calls on open descriptors are taken to succeed.
-/

namespace QjsLws.Poll

/-- An event mask built from `POLLIN` and `POLLOUT`. -/
structure Events where
  pollin : Bool
  pollout : Bool
  deriving DecidableEq, Repr

/-- The empty mask. -/
def Events.zero : Events := ⟨false, false⟩

/-- The bit of a direction: `POLLOUT` for writing, `POLLIN` for reading. -/
def Events.has (events : Events) (write : Bool) : Bool :=
  if write then events.pollout else events.pollin

/-- `struct lws_pollargs`. -/
structure PollArgs where
  fd : Int
  events : Events
  prevEvents : Events
  deriving DecidableEq, Repr

/-- An entry of `lws->handlers`. -/
structure HandlerFunction where
  fd : Int
  write : Bool
  deriving DecidableEq, Repr

/-- `LWSPollfdClosure`, the data of a `pollfd_handler` function. -/
structure PollfdClosure where
  fd : Int
  events : Events
  write : Bool
  deriving DecidableEq, Repr

/-- The functions passed to `os.setReadHandler` and `os.setWriteHandler`. -/
inductive Handler where
  | pollfd (closure : PollfdClosure)
  | epollReadable (epfd : Int)
  deriving DecidableEq, Repr

/-- `LWSEpollFd`. -/
structure EpollFd where
  fd : Int
  events : Events
  deriving DecidableEq, Repr

/-- The `EPOLLIN` and `EPOLLOUT` bits of a `struct epoll_event`. -/
structure EpollEvents where
  epollin : Bool
  epollout : Bool
  deriving DecidableEq, Repr

/-- The bit of a direction. -/
def EpollEvents.has (events : EpollEvents) (write : Bool) : Bool :=
  if write then events.epollout else events.epollin

/-- `LWSEpoll`, with the interest list that the kernel keeps for `epfd`. -/
structure Epoll where
  epfd : Int
  fds : List EpollFd
  interest : Int → Option EpollEvents

/-- The fields of `LWSContext` that the backends use. `os` holds the function that
`os.setReadHandler` and `os.setWriteHandler` last stored for a descriptor. -/
structure Context where
  handlers : List HandlerFunction
  os : Int → Bool → Option Handler
  epoll : Option Epoll

/-- A context before the first callback. -/
def Context.new : Context := ⟨[], fun _ _ => none, none⟩

/-! ## `iohandler.h` -/

/-- `iohandler_find`. -/
def iohandlerFind (lws : Context) (fd : Int) (write : Bool) : Option HandlerFunction :=
  lws.handlers.find? fun hf => hf.fd = fd ∧ hf.write = write

/-- `iohandler_add`. -/
def iohandlerAdd (lws : Context) (fd : Int) (write : Bool) : Context :=
  match iohandlerFind lws fd write with
  | some _ => lws
  | none => { lws with handlers := ⟨fd, write⟩ :: lws.handlers }

/-- `iohandler_remove`. -/
def iohandlerRemove (lws : Context) (fd : Int) (write : Bool) : Context :=
  match iohandlerFind lws fd write with
  | some hf => { lws with handlers := lws.handlers.erase hf }
  | none => lws

/-- The call of `os.setReadHandler` or `os.setWriteHandler`. -/
def osSetHandler (lws : Context) (fd : Int) (handler : Option Handler) (write : Bool) : Context :=
  { lws with os := fun d w => if d = fd ∧ w = write then handler else lws.os d w }

/-- `iohandler_set`; `none` is `JS_NULL`. -/
def iohandlerSet (lws : Context) (fd : Int) (handler : Option Handler) (write : Bool) : Context :=
  let listed := if handler.isSome then iohandlerAdd lws fd write else iohandlerRemove lws fd write
  osSetHandler listed fd handler write

/-! ## `lws-epoll.c` -/

/-- `epoll_fd_find`. -/
def epollFdFind (ep : Epoll) (fd : Int) : Option EpollFd := ep.fds.find? fun e => e.fd = fd

/-- The operations of `epoll_ctl`. -/
inductive EpollOp where
  | add (ev : EpollEvents)
  | mod (ev : EpollEvents)
  | del
  deriving DecidableEq, Repr

/-- `epoll_ctl`: adding a present descriptor and changing or removing an absent one fail and
change nothing. -/
def epollCtl (ep : Epoll) (op : EpollOp) (fd : Int) : Epoll :=
  let store (entry : Option EpollEvents) : Epoll :=
    { ep with interest := fun d => if d = fd then entry else ep.interest d }
  match op, ep.interest fd with
  | .add ev, none => store (some ev)
  | .mod ev, some _ => store (some ev)
  | .del, some _ => store none
  | _, _ => ep

/-- `epoll_new`, where `epfd` is what `epoll_create1` returns. -/
def epollNew (epfd : Int) (lws : Context) : Context × Epoll :=
  (iohandlerSet lws epfd (some (.epollReadable epfd)) false, ⟨epfd, [], fun _ => none⟩)

/-- The epoll instance of the context, created on first use. -/
def epollOf (epfd : Int) (lws : Context) : Context × Epoll :=
  match lws.epoll with
  | some ep => (lws, ep)
  | none => epollNew epfd lws

/-- `lws_epoll_ctl`. -/
def lwsEpollCtl (epfd : Int) (lws : Context) (fd : Int) (events : Events) : Context :=
  let (lws, ep) := epollOf epfd lws
  let ev : EpollEvents := ⟨events.pollin, events.pollout⟩
  match epollFdFind ep fd with
  | some e =>
    let fds := ep.fds.replace e { e with events := events }
    { lws with epoll := some (epollCtl { ep with fds := fds } (.mod ev) fd) }
  | none =>
    { lws with epoll := some (epollCtl { ep with fds := ⟨fd, events⟩ :: ep.fds } (.add ev) fd) }

/-- `lws_epoll_del`. -/
def lwsEpollDel (lws : Context) (fd : Int) : Context :=
  match lws.epoll with
  | none => lws
  | some ep =>
    match epollFdFind ep fd with
    | none => lws
    | some e =>
      let ep := epollCtl ep .del fd
      { lws with epoll := some { ep with fds := ep.fds.erase e } }

/-! ## `lwsjs_callback_pollfd` -/

/-- The reasons of `is_pollfd_reason`. -/
inductive PollReason where
  | lockPoll
  | unlockPoll
  | addPollFd
  | changeModePollFd
  | delPollFd
  deriving DecidableEq, Repr

/-- Which backend the build has. -/
inductive Backend where
  | iohandler
  | epoll (epfd : Int)
  deriving DecidableEq, Repr

/-- The registration of the default backend. -/
def iohandlerRegister (lws : Context) (reason : PollReason) (x : PollArgs) : Context :=
  let write := x.events.pollout
  let fn : Handler := .pollfd ⟨x.fd, x.events, write⟩
  let cleared :=
    if reason = .changeModePollFd then iohandlerSet lws x.fd none (!write) else lws
  iohandlerSet cleared x.fd (some fn) write

/-- `lwsjs_callback_pollfd`. -/
def lwsjsCallbackPollfd (backend : Backend) (lws : Context) (reason : PollReason)
    (x : PollArgs) : Context :=
  match reason with
  | .lockPoll | .unlockPoll => lws
  | .delPollFd =>
    match backend with
    | .epoll _ => lwsEpollDel lws x.fd
    | .iohandler => iohandlerSet (iohandlerSet lws x.fd none false) x.fd none true
  | .addPollFd | .changeModePollFd =>
    if x.events = x.prevEvents then lws
    else
      match backend with
      | .epoll epfd => lwsEpollCtl epfd lws x.fd x.events
      | .iohandler => iohandlerRegister lws reason x

/-! ## Both backends under the same callbacks -/

/-- The default backend waits for the direction. -/
def ioWatches (lws : Context) (fd : Int) (write : Bool) : Bool := (lws.os fd write).isSome

/-- The epoll instance waits for the direction. -/
def epollWatches (lws : Context) (fd : Int) (write : Bool) : Bool :=
  match lws.epoll with
  | none => false
  | some ep => (ep.interest fd).any (·.has write)

/-- One callback: the reason, the descriptor and the mask delivered with it. -/
structure Callback where
  reason : PollReason
  fd : Int
  events : Events
  deriving DecidableEq, Repr

/-- A context of each build under the same callbacks, with what lws delivered so far: the mask
last delivered for each descriptor and whether the descriptor is live. -/
structure Builds where
  io : Context
  ep : Context
  delivered : Int → Events
  live : Int → Bool

/-- Before the first callback. -/
def Builds.new : Builds := ⟨Context.new, Context.new, fun _ => .zero, fun _ => false⟩

/-- The mask of a live descriptor, and no bit otherwise. -/
def Builds.current (s : Builds) (fd : Int) : Events :=
  if s.live fd then s.delivered fd else .zero

/-- lws notes the callback: taking the lock delivers no mask. -/
def Builds.note (s : Builds) (c : Callback) : Builds :=
  match c.reason with
  | .lockPoll | .unlockPoll => s
  | .addPollFd | .changeModePollFd =>
    { s with
      delivered := fun d => if d = c.fd then c.events else s.delivered d
      live := fun d => if d = c.fd then true else s.live d }
  | .delPollFd =>
    { s with
      delivered := fun d => if d = c.fd then c.events else s.delivered d
      live := fun d => if d = c.fd then false else s.live d }

/-- One callback to both builds, with `prev_events` the mask last delivered. -/
def step (epfd : Int) (s : Builds) (c : Callback) : Builds :=
  let x : PollArgs := ⟨c.fd, c.events, s.delivered c.fd⟩
  { s.note c with
    io := lwsjsCallbackPollfd .iohandler s.io c.reason x
    ep := lwsjsCallbackPollfd (.epoll epfd) s.ep c.reason x }

/-- Both builds wait for exactly the bits of the last mask of each live descriptor, and the
`handlers` list has exactly one entry for each pair waited for. -/
structure Agree (s : Builds) : Prop where
  io : ∀ fd write, ioWatches s.io fd write = (s.current fd).has write
  epoll : ∀ fd write, epollWatches s.ep fd write = (s.current fd).has write
  handlers : ∀ fd write,
    s.io.handlers.count ⟨fd, write⟩ = if ioWatches s.io fd write then 1 else 0

/-- The callbacks the default backend follows. A mask equal to the one last delivered is ignored,
so it must be the current one. A new mask sets one direction only: a change of mode must name
exactly one, and an addition leaves the other direction as it was. -/
def Followed (s : Builds) (c : Callback) : Prop :=
  match c.reason with
  | .lockPoll | .unlockPoll | .delPollFd => True
  | .changeModePollFd =>
    if c.events = s.delivered c.fd then c.events = s.current c.fd
    else c.events.pollin ≠ c.events.pollout
  | .addPollFd =>
    if c.events = s.delivered c.fd then c.events = s.current c.fd
    else (s.current c.fd = .zero ∧ c.events.pollin ≠ c.events.pollout) ∨
      (s.current c.fd = ⟨true, false⟩ ∧ c.events = ⟨true, true⟩)

end QjsLws.Poll
