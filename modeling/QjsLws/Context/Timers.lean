import QjsLws.Misc.Run

/-!
# `ctx.schedule` timers

`LWSTimer` records (`lws-context.c`) are reached from three sides: the scheduler of lws through
the embedded `sul`, the list `lws->timers`, and the `cancel` functions handed to JS, which keep the
record's address. A record is named by its allocation number, and an access to a record that was
already freed is logged and otherwise has no effect. Delays are not modelled: a scheduled `sul`
may expire at any time. What the callback does follows the expiry as further operations, since
the record is freed before the callback is called.
-/

namespace QjsLws.Context

/-- The memory of an `LWSTimer`. -/
inductive TimerRecord where
  | live
  | released
  deriving DecidableEq, Repr

/-- What happens to timers, in order. `touched` is an access to a freed record. -/
inductive TimerEvent where
  | called (t : Nat)
  | cancelled (t : Nat)
  | destroyed
  | released (t : Nat)
  | touched (t : Nat)
  deriving DecidableEq, Repr

/-- The timers of a context. `functions` are the `cancel` functions made so far, each with its
closure pointer (`none` is the null pointer), and `objects` the objects returned by `schedule`,
each with the number of the function its `cancel` property holds. -/
structure TimerState where
  ctx : Bool
  records : List TimerRecord
  timers : List Nat
  suls : List Nat
  functions : List (Option Nat)
  objects : List Nat
  log : List TimerEvent
  deriving DecidableEq, Repr

/-- A new context. -/
def TimerState.new : TimerState := ⟨true, [], [], [], [], [], []⟩

namespace TimerState

/-- Adds an entry to the log. -/
def note (s : TimerState) (e : TimerEvent) : TimerState := { s with log := s.log ++ [e] }

/-- An access to the memory of a record. -/
def touch (s : TimerState) (t : Nat) : TimerState :=
  if s.records[t]? = some .live then s else s.note (.touched t)

/-- `list_del(&t->link)`. -/
def listDel (s : TimerState) (t : Nat) : TimerState :=
  { s.touch t with timers := s.timers.erase t }

/-- `lws_sul_cancel(&t->sul)`. -/
def sulCancel (s : TimerState) (t : Nat) : TimerState :=
  { s.touch t with suls := s.suls.erase t }

/-- `js_free_rt(rt, t)`. -/
def release (s : TimerState) (t : Nat) : TimerState :=
  { (s.touch t).note (.released t) with records := s.records.set t .released }

/-- `lwsjs_timer_fire`, up to the call of the callback. -/
def timerFire (s : TimerState) (t : Nat) : TimerState :=
  (((s.touch t).listDel t).release t).note (.called t)

/-- The scheduler takes an expired `sul` out of its list and calls it. -/
def expire (s : TimerState) (t : Nat) : TimerState :=
  if t ∈ s.suls then timerFire { s with suls := s.suls.erase t } t else s

/-- `JS_SetPropertyStr(ctx, this_val, "cancel", …)` with a new function whose closure pointer is
null; `this_val` may be no timer object at all. -/
def neutralise (s : TimerState) (thisVal : Option Nat) : TimerState :=
  let fn := s.functions.length
  let objects :=
    match thisVal with
    | some o => s.objects.set o fn
    | none => s.objects
  { s with
    functions := s.functions ++ [none]
    objects := objects }

/-- `lwsjs_timer_cancel`, called as the function `fn`. -/
def timerCancel (s : TimerState) (fn : Nat) (thisVal : Option Nat) : TimerState :=
  match s.functions[fn]? with
  | some (some t) =>
    let unlinked := (s.listDel t).sulCancel t
    (((unlinked.touch t).release t).note (.cancelled t)).neutralise thisVal
  | _ => s

/-- The body of the loop of `timers_cleanup`. -/
def cleanupOne (s : TimerState) (t : Nat) : TimerState :=
  let unlinked := s.listDel t
  let stopped := if unlinked.ctx then unlinked.sulCancel t else unlinked
  (stopped.touch t).release t

/-- `timers_cleanup`. -/
def timersCleanup (s : TimerState) : TimerState := s.timers.foldl cleanupOne s

/-- `METHOD_DESTROY`; `lws_context_destroy` ends the scheduler. -/
def destroy (s : TimerState) : TimerState :=
  if s.ctx then
    { (s.timersCleanup).note .destroyed with
      ctx := false
      suls := [] }
  else s

/-- `METHOD_SCHEDULE`: throws on a destroyed context and where the argument is no function. -/
def schedule (s : TimerState) (isFunction : Bool) : TimerState :=
  if s.ctx && isFunction then
    let t := s.records.length
    { s with
      records := s.records ++ [.live]
      timers := t :: s.timers
      suls := s.suls ++ [t]
      functions := s.functions ++ [some t]
      objects := s.objects ++ [s.functions.length] }
  else s

end TimerState

/-- The operations on the timers of a context. `call` is a call of a `cancel` function that was
saved, `cancel` a call of `timer.cancel()` on the object `schedule` returned. -/
inductive TimerOp where
  | schedule (isFunction : Bool)
  | expire (t : Nat)
  | cancel (object : Nat)
  | call (fn : Nat) (thisVal : Option Nat)
  | destroy
  deriving DecidableEq, Repr

/-- One operation. -/
def timerStep (s : TimerState) : TimerOp → TimerState
  | .schedule isFunction => s.schedule isFunction
  | .expire t => s.expire t
  | .cancel object =>
    match s.objects[object]? with
    | some fn => s.timerCancel fn (some object)
    | none => s
  | .call fn thisVal => s.timerCancel fn thisVal
  | .destroy => s.destroy

/-- A callback runs after no earlier run of it, no cancel of its timer and no destroy. -/
def InOrder (a b : TimerEvent) : Prop :=
  ∀ t, b = .called t → a ≠ .called t ∧ a ≠ .cancelled t ∧ a ≠ .destroyed

/-- The lifetime rules of timers: callbacks run in order, every record that is not pending was
released exactly once and no other was released, a destroyed context has no pending record, and
no freed record was accessed. -/
structure Lifetime (s : TimerState) : Prop where
  order : s.log.Pairwise InOrder
  once : ∀ t, t < s.records.length → s.log.count (.released t) = if t ∈ s.timers then 0 else 1
  drained : s.ctx = false → s.timers = []
  untouched : ∀ t, .touched t ∉ s.log

/-- The closure pointer of a function is null or points to a record that is not freed. -/
def FunctionUsable (s : TimerState) (fn : Nat) : Prop :=
  ∀ t, s.functions[fn]? = some (some t) → s.records[t]? = some .live

/-- A `cancel` function whose closure pointer is set is called only while its timer is pending. -/
def CancelledPending (s : TimerState) : TimerOp → Prop
  | .cancel object => ∀ fn, s.objects[object]? = some fn → FunctionUsable s fn
  | .call fn _ => FunctionUsable s fn
  | _ => True

end QjsLws.Context
