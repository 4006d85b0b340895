import Konnectivity.Proto.Packet

/-!
# Backends

A backend is one connected agent stream. Managers compare backends by
pointer, so a backend is an identity (`BackendId`) here; what `NewBackend`
caches from the stream's metadata never changes afterwards and is a record
looked up by that identity.
-/

namespace Konnectivity

/-- The identity of a `*Backend`. -/
abbrev BackendId := Nat

abbrev AgentID := String

/-- `header.Identifiers`. -/
structure Identifiers where
  ipv4 : List String := []
  ipv6 : List String := []
  host : List String := []
  cidr : List String := []
  defaultRoute : Bool := false
  deriving DecidableEq, Repr

/-- `header.IdentifierType`. -/
inductive IdentifierType where
  | ipv4
  | ipv6
  | host
  | cidr
  | uid
  | defaultRoute
  deriving DecidableEq, Repr

/-- The fields of a `Backend` that `NewBackend` sets for good. -/
structure BackendInfo where
  id : AgentID
  idents : Identifiers := {}
  deriving DecidableEq, Repr

inductive ProxyStrategy where
  | default
  | destHost
  | defaultRoute
  deriving DecidableEq, Repr

/-! ## The cost of a dial

`time.Duration` is an `int64` of nanoseconds and its arithmetic wraps. -/

/-- How long a dial latency sample counts: 30 seconds. -/
def dialLatencyWindow : Int := 30000000000

/-- The latency below which agents are equally fast: 5 milliseconds. -/
def dialLatencyFloor : Int64 := 5000000

/-- What `dialCost` reads of a backend. `dialLatencyAt` is `none` for the zero
time, when no dial has completed yet. -/
structure DialStats where
  dialLatency : Int64 := 0
  dialLatencyAt : Option Int := none
  dialsInFlight : Int64 := 0
  deriving DecidableEq, Repr

/-- A moving average of the completed dials' latency. It starts over with a
sample that comes long after the one before. -/
def DialStats.observeDial (b : DialStats) (d : Int64) (now : Int) : DialStats :=
  let latency :=
    match b.dialLatencyAt with
    | none => d
    | some at_ => if dialLatencyWindow < now - at_ then d else (b.dialLatency + d) / 2
  { b with dialLatency := latency, dialLatencyAt := some now }

/-- The recent dial latency, scaled by the dials already waiting. -/
def DialStats.dialCost (b : DialStats) (now : Int) : Int64 :=
  let latency :=
    match b.dialLatencyAt with
    | none => dialLatencyFloor
    | some at_ =>
        if now - at_ ≤ dialLatencyWindow ∧ dialLatencyFloor < b.dialLatency then
          b.dialLatency
        else dialLatencyFloor
  let inFlight := if b.dialsInFlight < 0 then 0 else b.dialsInFlight
  latency * (inFlight + 1)

end Konnectivity
