import Mathlib.Algebra.Ring.Nat
import Konnectivity.Lib.GoMap
import Konnectivity.Storage.Backend

/-!
# The tables of the proxy server

The two maps a connection moves through: `PendingDialManager`, keyed by dial
ID, from the `DIAL_REQ` until somebody claims the dial, and `established`,
keyed by agent and connection ID, from the `DIAL_RSP` until the connection is
closed. Every operation here is one critical section of the code.

A `*Frontend` is identified by its stream UID. `stream` says what kind of
`ProxyStream` stands behind it: a gRPC or HTTP-CONNECT stream served by
`proxy`, or the `serverConn` of an in-process dial.
-/

namespace Konnectivity

open Lib

abbrev StreamUID := String

inductive FrontendStream where
  | proxy
  | serverConn (dialID : DialID)
  deriving DecidableEq, Repr

structure Frontend where
  streamUID : StreamUID
  stream : FrontendStream
  deriving DecidableEq, Repr

structure ProxyClientConnection where
  frontend : Option Frontend
  dialID : DialID
  connectID : ConnectID := 0
  agentID : AgentID := ""
  backend : Option BackendId
  dialAddress : String := ""
  deriving DecidableEq, Repr

/-- The connection was asked for by this frontend stream. -/
def ProxyClientConnection.ofStream (p : ProxyClientConnection) (u : StreamUID) : Bool :=
  match p.frontend with
  | none => false
  | some f => f.streamUID = u

/-! ## Pending dials -/

/-- `PendingDialManager`, with the `dialsInFlight` counters it maintains on the
backends. A counter is an `atomic.Int64` that stays the number of entries of the
map with that backend (`Proofs.PendingCount`), so that it cannot wrap. -/
structure PendingDialManager where
  pendingDial : GoMap DialID ProxyClientConnection := ∅
  dialsInFlight : BackendId → Int := fun _ => 0

namespace PendingDialManager

variable (pm : PendingDialManager)

/-- `backend.dialsInFlight.Add(delta)`, for a backend that is not nil. -/
def addInFlight (backend : Option BackendId) (delta : Int) : PendingDialManager :=
  match backend with
  | none => pm
  | some b =>
      { pm with
        dialsInFlight := Function.update pm.dialsInFlight b (pm.dialsInFlight b + delta) }

/-- `Add`. An entry already pending under the ID is replaced. -/
def add (random : DialID) (clientConn : ProxyClientConnection) : PendingDialManager :=
  let old :=
    match pm.pendingDial.lookup random with
    | none => pm
    | some old => pm.addInFlight old.backend (-1)
  { old with pendingDial := old.pendingDial.insert random clientConn }.addInFlight
    clientConn.backend 1

/-- `Remove`. -/
def remove (random : DialID) : Option ProxyClientConnection × PendingDialManager :=
  match pm.pendingDial.lookup random with
  | none => (none, { pm with pendingDial := pm.pendingDial.erase random })
  | some pd =>
      (some pd, { pm with pendingDial := pm.pendingDial.erase random }.addInFlight pd.backend (-1))

/-- The loop shared by `removeForBackend` and `removeForStream`. -/
def removeMatching (test : ProxyClientConnection → Bool) :
    List ProxyClientConnection × PendingDialManager :=
  let (ret, rest) := pm.pendingDial.removeWhere test
  (ret, ret.foldl (fun pm p => pm.addInFlight p.backend (-1)) { pm with pendingDial := rest })

/-- `removeForBackend`. -/
def removeForBackend (backend : Option BackendId) :
    List ProxyClientConnection × PendingDialManager :=
  match backend with
  | none => ([], pm)
  | some b => pm.removeMatching fun p => p.backend = some b

/-- `removeForStream`. -/
def removeForStream (streamUID : StreamUID) :
    List ProxyClientConnection × PendingDialManager :=
  if streamUID = "" then ([], pm) else pm.removeMatching fun p => p.ofStream streamUID

end PendingDialManager

/-! ## Established connections -/

/-- `ProxyServer.established`. -/
abbrev Established := GoMap AgentID (GoMap ConnectID ProxyClientConnection)

namespace Established

variable (es : Established)

/-- `addEstablished`. -/
def add (agentID : AgentID) (connID : ConnectID) (p : ProxyClientConnection) : Established :=
  let conns := (es.lookup agentID).getD ∅
  es.insert agentID (conns.insert connID p)

/-- `getFrontend`. -/
def getFrontend (agentID : AgentID) (connID : ConnectID) : Option ProxyClientConnection :=
  match es.lookup agentID with
  | none => none
  | some conns => conns.lookup connID

/-- Store the connections of an agent; the agent goes when none is left. -/
def put (agentID : AgentID) (conns : GoMap ConnectID ProxyClientConnection) : Established :=
  if conns.size = 0 then es.erase agentID else es.insert agentID conns

/-- `removeEstablished`. -/
def remove (agentID : AgentID) (connID : ConnectID) :
    Option ProxyClientConnection × Established :=
  match es.lookup agentID with
  | none => (none, es)
  | some conns =>
      match conns.lookup connID with
      | none => (none, es)
      | some p => (some p, es.put agentID (conns.erase connID))

/-- `removeEstablishedForBackendConn`; `none` when the agent has no entry. -/
def removeForBackendConn (agentID : AgentID) (backend : BackendId) :
    Option (List ProxyClientConnection) × Established :=
  match es.lookup agentID with
  | none => (none, es)
  | some conns =>
      let (ret, rest) := conns.removeWhere fun p => p.backend = some backend
      (some ret, es.put agentID rest)

/-- The outer loop of `removeEstablishedForStream`, over the agents. -/
def removeForStreamLoop (streamUID : StreamUID) :
    List AgentID → Established → List ProxyClientConnection × Established
  | [], es => ([], es)
  | agentID :: rest, es =>
      let (ret, left) :=
        ((es.lookup agentID).getD ∅).removeWhere fun p => p.ofStream streamUID
      let (rets, es) := removeForStreamLoop streamUID rest (es.put agentID left)
      (ret ++ rets, es)

/-- `removeEstablishedForStream`. -/
def removeForStream (streamUID : StreamUID) : List ProxyClientConnection × Established :=
  if streamUID = "" then ([], es) else removeForStreamLoop streamUID es.keys es

/-- `getCount`. -/
def getCount : Nat := (es.entries.map fun e => e.2.size).sum

end Established

end Konnectivity
