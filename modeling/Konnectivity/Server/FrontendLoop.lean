import Konnectivity.Lib.GoChan
import Konnectivity.Lib.Threads
import Konnectivity.Server.Tables

/-!
# Serving one frontend stream

The two goroutines of `proxy`: `readFrontendToChannel` moves the packets of
the stream into `recvCh`, and `serveRecvFrontend` takes them out. The server
machine has the body of that loop among everything else the server does; here
the loop stands alone, with its channel and with the packets it discards when
it has ended, and with a log of what it does, oldest first.

What the calls of one iteration return is an `Outcome`. A packet is forwarded
when it is given to `Send`, whatever comes of it.
-/

namespace Konnectivity.FrontendLoop

open Lib

/-- The variables of `serveRecvFrontend`. -/
structure Vars where
  backend : Option BackendId := none
  firstConnID : ConnectID := 0
  deriving DecidableEq, Repr

/-- How the calls of one iteration end. -/
structure Outcome where
  getBackend : Except String BackendId := .error ""
  /-- The error of a `Send` to an agent. -/
  send : Packet → Option String := fun _ => none
  /-- `PendingDial.Remove` returned an entry. -/
  removed : Bool := true

inductive Event where
  /-- The loop took the packet from `recvCh`. -/
  | received (pkt : Packet)
  /-- `getBackend` returned the backend. -/
  | selected (b : BackendId)
  | pendingAdd (random : DialID) (p : ProxyClientConnection)
  | pendingRemove (random : DialID)
  | startPendingDialTimeout (random : DialID) (b : BackendId)
  | toAgent (b : BackendId) (pkt : Packet) (err : Option String)
  | toFrontend (pkt : Packet)
  deriving DecidableEq, Repr

/-- The packet of `sendFrontendClose`. -/
def closeFrontend (connID : ConnectID) (reason : String) : Event :=
  .toFrontend (.ofCloseResponse ⟨reason, connID⟩)

/-- `sendBackendClose`. -/
def closeBackend (o : Outcome) (b : BackendId) (connID : ConnectID) : Event :=
  .toAgent b (.newCloseRequest connID) (o.send (.newCloseRequest connID))

/-- The `DIAL_REQ` case, for a backend that was found. -/
def dial (f : Frontend) (v : Vars) (pkt : Packet) (req : DialRequest) (o : Outcome)
    (b : BackendId) : Vars × List Event × Bool :=
  let entry : ProxyClientConnection :=
    { frontend := some f, dialID := req.random, backend := some b, dialAddress := req.address }
  let start : List Event :=
    [.selected b, .pendingAdd req.random entry, .toAgent b pkt (o.send pkt)]
  let v := { v with backend := some b }
  match o.send pkt with
  | none => (v, start ++ [.startPendingDialTimeout req.random b], true)
  | some err =>
      if o.removed then
        (v, start ++ [.pendingRemove req.random, .toFrontend (.newDialFailure req.random err)],
          false)
      else (v, start ++ [.pendingRemove req.random], true)

/-- The `DATA` case, with a backend. -/
def data (v : Vars) (pkt : Packet) (connID : ConnectID) (o : Outcome) (b : BackendId) :
    Vars × List Event × Bool :=
  if connID = 0 then (v, [], true)
  else if v.firstConnID = 0 then
    ({ v with firstConnID := connID }, [.toAgent b pkt (o.send pkt)], true)
  else if v.firstConnID ≠ connID then
    (v, [closeBackend o b connID, closeBackend o b v.firstConnID,
      closeFrontend connID "mismatched connection IDs",
      closeFrontend v.firstConnID "mismatched connection IDs"], false)
  else (v, [.toAgent b pkt (o.send pkt)], true)

/-- One iteration of the loop: the variables after it, what it did, and whether
the loop goes on. `none` is a nil payload. -/
def iterate (f : Frontend) (v : Vars) (pkt : Packet) (o : Outcome) :
    Option (Vars × List Event × Bool) :=
  match pkt.type with
  | .dialReq => pkt.getDialRequest.map fun req =>
      match o.getBackend with
      | .error err =>
          ({ v with backend := none }, [.toFrontend (.newDialFailure req.random err)], false)
      | .ok b => dial f v pkt req o b
  | .closeReq => pkt.getCloseRequest.map fun req =>
      match v.backend with
      | none => (v, [closeFrontend req.connectID "backend uninitialized"], true)
      | some b =>
          let failed :=
            if (o.send pkt).isSome then [closeFrontend req.connectID "CLOSE_REQ to backend failed"]
            else []
          (v, .toAgent b pkt (o.send pkt) :: failed, false)
  | .dialCls => pkt.getCloseDial.map fun req => (v, [.pendingRemove req.random], true)
  | .data => pkt.getData.map fun (req : Data) =>
      match v.backend with
      | none => (v, [closeFrontend req.connectID "backend not initialized"], false)
      | some b => data v pkt req.connectID o b
  | _ => some (v, [], true)

/-! ## The goroutines -/

inductive Tid where
  /-- `readFrontendToChannel`. -/
  | reader
  /-- `serveRecvFrontend`. -/
  | handler
  deriving DecidableEq, Repr

inductive Op where
  | recvChSend (pkt : Packet)
  | stopChSend (err : String)
  | closeRecvCh
  | closeStopCh
  | loop
  | body (pkt : Packet)
  | emit (e : Event)
  /-- The end of an iteration; whether the loop goes on. -/
  | next (goesOn : Bool)
  /-- The deferred loop that discards. -/
  | discard
  deriving DecidableEq, Repr

inductive Panic where
  | nilPayload
  | chan (reason : ChanPanic)
  deriving DecidableEq, Repr

structure LoopState where
  recvCh : GoChan Packet
  stopCh : GoChan String := ⟨1, [], false⟩
  vars : Vars := {}
  /-- `Recv` has returned an error. -/
  recvEnded : Bool := false
  log : List Event := []
  discarded : List Packet := []
  /-- The packets `Recv` has returned. -/
  stream : List Packet := []
  panic : Option Panic := none

def exec (f : Frontend) (s : LoopState) (_ : Tid) (c : Outcome) :
    Op → Option (LoopState × List Op × Option (Tid × List Op))
  | .recvChSend pkt =>
      match s.recvCh.send pkt with
      | none => none
      | some (.error reason) => some ({ s with panic := some (.chan reason) }, [], none)
      | some (.ok ch) => some ({ s with recvCh := ch }, [], none)
  | .stopChSend err =>
      match s.stopCh.send err with
      | none => none
      | some (.error reason) => some ({ s with panic := some (.chan reason) }, [], none)
      | some (.ok ch) => some ({ s with stopCh := ch }, [], none)
  | .closeRecvCh =>
      match s.recvCh.close with
      | .error reason => some ({ s with panic := some (.chan reason) }, [], none)
      | .ok ch => some ({ s with recvCh := ch }, [], none)
  | .closeStopCh =>
      match s.stopCh.close with
      | .error reason => some ({ s with panic := some (.chan reason) }, [], none)
      | .ok ch => some ({ s with stopCh := ch }, [], none)
  | .loop =>
      match s.recvCh.recv with
      | none => none
      | some (none, _) => some (s, [.discard], none)
      | some (some pkt, ch) =>
          some ({ s with recvCh := ch, log := s.log ++ [.received pkt] }, [.body pkt], none)
  | .body pkt =>
      match iterate f s.vars pkt c with
      | none => some ({ s with panic := some .nilPayload }, [], none)
      | some (v, events, goesOn) =>
          some ({ s with vars := v }, events.map .emit ++ [.next goesOn], none)
  | .emit e => some ({ s with log := s.log ++ [e] }, [], none)
  | .next goesOn => some (s, [if goesOn then .loop else .discard], none)
  | .discard =>
      match s.recvCh.recv with
      | none => none
      | some (none, _) => some (s, [], none)
      | some (some pkt, ch) =>
          some ({ s with recvCh := ch, discarded := s.discarded ++ [pkt] }, [.discard], none)

/-- What `Recv` returns to `readFrontendToChannel`. -/
inductive Recv where
  | packet (pkt : Packet)
  | eof
  | err (msg : String)
  deriving DecidableEq, Repr

def arrive (s : LoopState) : Recv → Option (LoopState × Option (Tid × List Op))
  | .packet pkt =>
      if s.recvEnded then none
      else some ({ s with stream := s.stream ++ [pkt] }, some (.reader, [.recvChSend pkt]))
  | .eof =>
      if s.recvEnded then none
      else some ({ s with recvEnded := true }, some (.reader, [.closeRecvCh, .closeStopCh]))
  | .err msg =>
      if s.recvEnded then none
      else some ({ s with recvEnded := true },
        some (.reader, [.stopChSend msg, .closeRecvCh, .closeStopCh]))

def proxy (f : Frontend) : System LoopState Tid Op Recv Outcome where
  exec := exec f
  arrive := arrive
  halted := fun s => s.panic.isSome

/-- A stream that has just been opened. -/
def newProxy (xfrChannelSize : Nat) : System.State LoopState Tid Op :=
  ⟨{ recvCh := ⟨xfrChannelSize, [], false⟩ }, fun t => if t = .handler then [.loop] else []⟩

end Konnectivity.FrontendLoop
