import Konnectivity.Lib.Threads
import Konnectivity.Proto.Packet

/-!
# The send queue of a backend

`queueSend` hands a packet to the agent without waiting for it: the packet is
appended to `queued`, and the caller starts a `sendQueued` goroutine unless
one runs already. That goroutine takes the packets out one by one and ends
when it finds none left.

What happens between `queueMu.Lock` and `queueMu.Unlock` is one operation,
which also lets go of the mutex; waiting for the mutex is an operation of its
own. A call of `Send` is two operations, its start and its return, and it need
never return.
-/

namespace Konnectivity

open Lib

namespace SendQueue

/-- Callers of `queueSend`, and the `sendQueued` goroutines in the order they
are started. -/
inductive Tid where
  | caller (i : Nat)
  | sender (n : Nat)
  deriving DecidableEq, Repr

inductive Op where
  /-- `queueMu.Lock`. -/
  | lock
  /-- The rest of `queueSend`. -/
  | append (p : Packet)
  /-- The critical section of an iteration of `sendQueued`. -/
  | pop
  /-- `Send` is called. -/
  | send (p : Packet)
  /-- `Send` returns. -/
  | sent (p : Packet)
  deriving DecidableEq, Repr

/-- How a `Send` ends; `sendQueued` only logs the error. -/
inductive SendEnd where
  | ok
  | failed
  deriving DecidableEq, Repr

structure Queue where
  queueMu : Bool := false
  queued : List Packet := []
  queueSending : Bool := false
  /-- The `sendQueued` goroutines started so far. -/
  started : Nat := 0
  /-- The packets `queueSend` has queued, in order. -/
  accepted : List Packet := []
  /-- The packets `Send` has been called with, in order. -/
  passed : List Packet := []
  deriving DecidableEq, Repr

def queueSend (p : Packet) : List Op := [.lock, .append p]

def sendQueued : List Op := [.lock, .pop]

def exec (b : Queue) (_ : Tid) (_ : SendEnd) :
    Op → Option (Queue × List Op × Option (Tid × List Op))
  | .lock => if b.queueMu then none else some ({ b with queueMu := true }, [], none)
  | .append p =>
      let b :=
        { b with queueMu := false, queued := b.queued ++ [p], accepted := b.accepted ++ [p] }
      if b.queueSending then some (b, [], none)
      else
        some ({ b with queueSending := true, started := b.started + 1 }, [],
          some (.sender b.started, sendQueued))
  | .pop =>
      match b.queued with
      | [] => some ({ b with queueMu := false, queueSending := false }, [], none)
      | p :: queued =>
          some ({ b with queueMu := false, queued := queued }, [.send p, .sent p] ++ sendQueued,
            none)
  | .send p => some ({ b with passed := b.passed ++ [p] }, [], none)
  | .sent _ => some (b, [], none)

/-- A goroutine calls `queueSend`. -/
structure Call where
  caller : Nat
  packet : Packet
  deriving DecidableEq, Repr

def arrive (b : Queue) (a : Call) : Option (Queue × Option (Tid × List Op)) :=
  some (b, some (.caller a.caller, queueSend a.packet))

def backend : System Queue Tid Op Call SendEnd where
  exec := exec
  arrive := arrive
  halted := fun _ => false

def init : System.State Queue Tid Op := ⟨{}, fun _ => []⟩

end SendQueue

end Konnectivity
