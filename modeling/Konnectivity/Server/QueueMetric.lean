import Konnectivity.Lib.GoChan
import Konnectivity.Lib.Threads
import Konnectivity.Proto.Packet

/-!
# The gauge of full write queues

`frontendWriteQueueMetrics` of an `httpConnectStream`. Whoever has put a packet
into `writeCh` or taken one out calls `updateFrontendWriteQueueMetric` next,
and closing the stream calls `stopFrontendWriteQueueMetric`.

The occupancy of the channel changes outside of the mutex, so reading it and
publishing what was read are two operations; each goroutine is at one
operation at a time. The rest of `enqueueWrite` and of the writer decides only
whether a channel operation is made, and here any goroutine may make one.
-/

namespace Konnectivity.QueueMetric

open Lib

/-- A goroutine that uses the stream. -/
abbrev Tid := Nat

inductive Op where
  /-- `h.writeCh <- pkt`. -/
  | enqueue (pkt : Packet)
  /-- `<-h.writeCh`. -/
  | dequeue
  /-- `state.mu.Lock` of an update. -/
  | lockUpdate
  /-- An update looks at `stopped` and at the channel. -/
  | check
  /-- An update stores what it read, and unlocks. -/
  | publish (full : Bool)
  /-- `state.mu.Lock` of the stop. -/
  | lockStop
  /-- The rest of the stop. -/
  | stop
  deriving DecidableEq, Repr

structure Stream where
  writeCh : GoChan Packet
  mu : Option Tid := none
  full : Bool := false
  /-- `fullGauge` is not nil. -/
  fullGauge : Bool := false
  stopped : Bool := false
  /-- What the stream has added to the gauge. -/
  gauge : Int := 0
  /-- A nil `fullGauge` was used. -/
  panic : Bool := false

/-- `len(h.writeCh) == cap(h.writeCh)`. -/
def Stream.isFull (h : Stream) : Bool := h.writeCh.buf.length = h.writeCh.cap

/-- `fullGauge.Dec`, and `fullGauge` is nil again. -/
def Stream.dec (h : Stream) : Stream :=
  if h.fullGauge then { h with gauge := h.gauge - 1, fullGauge := false }
  else { h with panic := true }

/-- The end of `updateFrontendWriteQueueMetric`, when it is not stopped. -/
def Stream.publish (h : Stream) (full : Bool) : Stream :=
  if h.full = full then h
  else if full then { h with full := true, fullGauge := true, gauge := h.gauge + 1 }
  else { h with full := false }.dec

/-- `stopFrontendWriteQueueMetric` under the mutex. -/
def Stream.stop (h : Stream) : Stream :=
  if h.stopped then h
  else if h.full then { h with stopped := true, full := false }.dec
  else { h with stopped := true }

def exec (h : Stream) (t : Tid) (_ : Unit) :
    Op → Option (Stream × List Op × Option (Tid × List Op))
  | .enqueue pkt =>
      if h.writeCh.buf.length < h.writeCh.cap then
        let writeCh := { h.writeCh with buf := h.writeCh.buf ++ [pkt] }
        some ({ h with writeCh := writeCh }, [.lockUpdate], none)
      else none
  | .dequeue =>
      match h.writeCh.buf with
      | [] => none
      | _ :: buf =>
          some ({ h with writeCh := { h.writeCh with buf := buf } }, [.lockUpdate], none)
  | .lockUpdate => if h.mu.isSome then none else some ({ h with mu := some t }, [.check], none)
  | .check =>
      if h.stopped then some ({ h with mu := none }, [], none)
      else some (h, [.publish h.isFull], none)
  | .publish full => some ({ h.publish full with mu := none }, [], none)
  | .lockStop => if h.mu.isSome then none else some ({ h with mu := some t }, [.stop], none)
  | .stop => some ({ h.stop with mu := none }, [], none)

/-- What a goroutine of the stream is about to do. -/
inductive Call where
  | enqueue (t : Tid) (pkt : Packet)
  | dequeue (t : Tid)
  | stop (t : Tid)
  deriving DecidableEq, Repr

def arrive (h : Stream) : Call → Option (Stream × Option (Tid × List Op))
  | .enqueue t pkt => some (h, some (t, [.enqueue pkt]))
  | .dequeue t => some (h, some (t, [.dequeue]))
  | .stop t => some (h, some (t, [.lockStop]))

def stream : System Stream Tid Op Call Unit where
  exec := exec
  arrive := arrive
  halted := fun h => h.panic

/-- A stream with a queue of `n` packets. -/
def init (n : Nat) : System.State Stream Tid Op := ⟨{ writeCh := ⟨n, [], false⟩ }, fun _ => []⟩

end Konnectivity.QueueMetric
