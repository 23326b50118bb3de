import QjsLws.Misc.Run

/-!
# Reading from pushed bytes

`ByteQueue` of `lib/lws/byte-queue.js`. The reads are numbered in the order of their calls, and the promise of
a read is resolved with bytes, or with `null`, which is `none` here.
-/

namespace QjsLws.Stream

open QjsLws.Misc

/-- A call of a method. -/
inductive ByteQueueCall where
  | feed (chunk : List UInt8)
  | close
  | read (n : Nat)
  deriving DecidableEq, Repr

/-- `#waiting`: the length that is asked for, and the read whose `resolve` is kept. -/
structure WaitingRead where
  n : Nat
  resolve : Nat
  deriving DecidableEq, Repr

/-- `#buf`, `#closed` and `#waiting`, the number of reads, and what promises were resolved with, in order. -/
structure ByteQueue where
  buf : List UInt8
  closed : Bool
  waiting : Option WaitingRead
  reads : Nat
  resolved : List (Option (List UInt8) × Nat)
  deriving DecidableEq, Repr

namespace ByteQueue

/-- `new ByteQueue()`. -/
def empty : ByteQueue := ⟨[], false, none, 0, []⟩

/-- `#check`. -/
def check (q : ByteQueue) : ByteQueue :=
  match q.waiting with
  | none => q
  | some ⟨n, resolve⟩ =>
    if q.buf.length ≥ n then
      { q with
        resolved := q.resolved ++ [(some (q.buf.take n), resolve)]
        buf := q.buf.drop n
        waiting := none }
    else if q.closed then { q with resolved := q.resolved ++ [(none, resolve)], waiting := none }
    else q

/-- `feed`. -/
def feed (q : ByteQueue) (chunk : List UInt8) : ByteQueue := { q with buf := q.buf ++ chunk }.check

/-- `close`. -/
def close (q : ByteQueue) : ByteQueue := { q with closed := true }.check

/-- `read`. -/
def read (q : ByteQueue) (n : Nat) : ByteQueue :=
  { q with waiting := some ⟨n, q.reads⟩, reads := q.reads + 1 }.check

def step (q : ByteQueue) : ByteQueueCall → ByteQueue
  | .feed chunk => q.feed chunk
  | .close => q.close
  | .read n => q.read n

end ByteQueue

/-! ## What the reads are to get -/

/-- The bytes fed. -/
def streamOf (calls : List ByteQueueCall) : List UInt8 :=
  calls.flatMap fun
    | .feed chunk => chunk
    | _ => []

/-- The lengths asked for, in the order of the reads. -/
def lengthsOf (calls : List ByteQueueCall) : List Nat :=
  calls.filterMap fun
    | .read n => some n
    | _ => none

/-- Whether the queue was closed. -/
def closedBy (calls : List ByteQueueCall) : Bool := calls.contains .close

/-- The consecutive slices of a stream; a read of more than is left takes nothing. -/
def slices : List Nat → List UInt8 → List (Option (List UInt8))
  | [], _ => []
  | n :: lengths, stream =>
    if n ≤ stream.length then some (stream.take n) :: slices lengths (stream.drop n)
    else none :: slices lengths stream

/-- The results that are due: of a queue that is not closed, up to the first read of more than was fed. -/
def answers (closed : Bool) (lengths : List Nat) (stream : List UInt8) : List (Option (List UInt8)) :=
  if closed then slices lengths stream else (slices lengths stream).takeWhile Option.isSome

/-- Each read that is due is resolved once, in order, with its slice. -/
def Answered (calls : List ByteQueueCall) : Prop :=
  (runFrom ByteQueue.step .empty calls).resolved =
    (answers (closedBy calls) (lengthsOf calls) (streamOf calls)).zipIdx

/-- Nothing is fed to a queue that was closed. -/
def ClosedLast (calls : List ByteQueueCall) : Prop :=
  Along ByteQueue.step (fun q call => ∀ chunk, call = .feed chunk → q.closed = false) .empty calls

/-- No read is issued while one waits. -/
def OneAtATime (calls : List ByteQueueCall) : Prop :=
  Along ByteQueue.step (fun q call => ∀ n, call = .read n → q.waiting = none) .empty calls

end QjsLws.Stream
