import Konnectivity.Server.Machine

/-!
# The metrics of the established connections

The server with the two metrics it keeps of `established`: the gauge
`established_connections`, which every change of the table sets inside its
critical section, and the counter of closed connections, which the caller of
a removal increases later. No operation reads either of them.

Of the counter the model remembers more than its value: for every connection
that was counted, the goroutine that counted it.
-/

namespace Konnectivity

open Lib

structure ServerMetrics where
  /-- The gauge `SetEstablishedConnCount` sets. -/
  establishedConnCount : Nat := 0
  /-- The counter of `ObserveEstablishedConnectionsClosed`. -/
  closed : List Tid := []

variable (cfg : ServerConfig)

/-- The operation gets as far as its call of `SetEstablishedConnCount`; `es` is
the table it finds. -/
def Op.setsCount (es : Established) : Op → Bool
  | .addEstablished _ _ _ => true
  | .removeEstablished a connID _ => (es.getFrontend a connID).isSome
  | .removeEstablishedForBackendConn b => (es.lookup (cfg.agentID b)).isSome
  | .removeEstablishedForStream u => u ≠ ""
  | _ => false

/-- The count of an `ObserveEstablishedConnectionsClosed`. -/
def Op.observes : Op → Nat
  | .observeClosed n => n
  | _ => 0

/-- What an operation writes to the metrics. -/
def ServerMetrics.note (s : ServerState) (t : Tid) (op : Op) (s₁ : ServerState)
    (m : ServerMetrics) : ServerMetrics where
  establishedConnCount :=
    if op.setsCount cfg s.established then s₁.established.getCount else m.establishedConnCount
  closed := List.replicate op.observes t ++ m.closed

/-- The server with its metrics. -/
def meteredServer : System (ServerState × ServerMetrics) Tid Op ServerAction Choice :=
  (server cfg).measured (ServerMetrics.note cfg)

def newMeteredServer : System.State (ServerState × ServerMetrics) Tid Op :=
  ⟨({}, {}), fun _ => []⟩

end Konnectivity
