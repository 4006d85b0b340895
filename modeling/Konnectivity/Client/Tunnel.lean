import Konnectivity.Lib.GoChan
import Konnectivity.Lib.GoMap
import Konnectivity.Lib.Threads
import Konnectivity.Proto.Packet

/-!
# The tunnel of the konnectivity client

`grpcTunnel`: the goroutine `serve` that reads the stream, the one call of
`dialContext` a single-use tunnel admits, and the users of the connection it
returned. As on the server, a goroutine is the list of operations it has yet
to perform, and what is decided elsewhere is in the `Choice`.

The result channel of a dial has no buffer. Its sender posts an offer and
waits until the offer is taken or withdraws it, so the receiver's taking the
offer is the moment at which the value changes hands.

`grpcConn.Close` is left out: it makes `Recv` and `Send` fail, which they may
do at any time here.
-/

namespace Konnectivity.Client

open Lib

/-- `metrics.DialFailureReason`. -/
inductive DialFailureReason where
  | unknown
  | timeout
  | context
  | endpoint
  | dialClosed
  | tunnelClosed
  | alreadyStarted
  | streamSetup
  deriving DecidableEq, Repr

/-- An error of `dialContext` and what `GetDialFailureReason` says of it. -/
structure DialError where
  msg : String
  reason : DialFailureReason
  deriving DecidableEq, Repr

structure DialResult where
  err : Option DialError
  connid : ConnectID
  deriving DecidableEq, Repr

/-- What `dialContext` returns. -/
inductive DialReturn where
  | conn (connID : ConnectID)
  | failed (err : DialError)
  deriving DecidableEq, Repr

/-- The labels of the `client_connections` gauge. -/
inductive ConnectionStatus where
  | created
  | dialing
  | ok
  | closing
  deriving DecidableEq, Repr

/-- The channels of a `pendingDial`. -/
structure DialChans where
  /-- What `serve` is sending on `resultCh`, and whether it was received. -/
  offer : Option DialResult := none
  taken : Bool := false
  /-- `cancelCh` is closed. -/
  cancelled : Bool := false
  deriving DecidableEq, Repr

/-- A `conn`. A nil slice is empty, as protobuf decodes an empty payload. -/
structure Conn where
  connID : ConnectID := 0
  readCh : GoChan Bytes := ⟨10, [], false⟩
  closeCh : GoChan String := ⟨1, [], false⟩
  rdata : Bytes := []
  closing : Bool := false
  /-- `dialContext` has returned it. -/
  returned : Bool := false
  deriving DecidableEq, Repr

/-- The goroutines: `serve`, `dialContext`, the goroutine that withdraws a
dial, the users of the connection, and `awaitCloseResponse`. -/
inductive Tid where
  | serve
  | dial
  | canceller
  | user (n : Nat)
  | awaiter
  deriving DecidableEq, Repr

inductive Event where
  | received (pkt : Packet)
  | dialing (random : DialID)
  /-- The result changed hands on `resultCh`. -/
  | handed (random : DialID) (result : DialResult)
  /-- `conns.add`. -/
  | registered (connID : ConnectID) (random : DialID)
  /-- The payload was put into `readCh`, or the connection closed. -/
  | delivered (random : DialID) (pkt : Packet)
  /-- `close(conn.readCh)` was called. -/
  | readClosed (random : DialID)
  | sent (t : Tid) (pkt : Packet) (ok : Bool)
  | dialReturned (random : DialID) (ret : DialReturn)
  /-- What `Read` returned; `none` is `io.EOF`. -/
  | readReturned (random : DialID) (data : Option Bytes)
  deriving DecidableEq, Repr

inductive Panic where
  /-- A field of a payload that is not there. -/
  | nilPayload
  | chan (reason : ChanPanic)
  deriving DecidableEq, Repr

structure TunnelState where
  /-- The pending dials; their channels are in `chans`. -/
  pendingDial : GoMap DialID Unit := ∅
  /-- The registered connections, by the dial they come from. -/
  conns : GoMap ConnectID DialID := ∅
  chans : DialID → DialChans := fun _ => {}
  conn : DialID → Conn := fun _ => {}
  started : Bool := false
  closing : Bool := false
  done : Bool := false
  ctxDone : Bool := false
  prevStatus : ConnectionStatus := .created
  gauge : ConnectionStatus → Int := fun status => if status = .created then 1 else 0
  log : List Event := []
  panic : Option Panic := none

namespace TunnelState

variable (s : TunnelState)

@[simps]
def setChans (r : DialID) (x : DialChans) : TunnelState :=
  { s with chans := Function.update s.chans r x }

@[simps]
def setConn (r : DialID) (x : Conn) : TunnelState :=
  { s with conn := Function.update s.conn r x }

@[simps]
def record (e : Event) : TunnelState := { s with log := e :: s.log }

@[simps]
def crash (reason : Panic) : TunnelState := { s with panic := some reason }

end TunnelState

/-! ## What the goroutines still have to do -/

/-- What `serve` looked a connection up for. -/
inductive AfterGet where
  | data (pkt : Packet) (data : Bytes)
  | closeRsp (pkt : Packet) (error : String)
  deriving DecidableEq, Repr

/-- What depends on the result of a `Send`. -/
inductive AfterSend where
  | done
  /-- The `DIAL_REQ` of `dialContext`. -/
  | dialReq (random : DialID)
  /-- `conn.Close`. -/
  | closeConn (random : DialID)
  deriving DecidableEq, Repr

inductive Op where
  | dispatch (pkt : Packet)
  | pendingGet (random : DialID) (result : DialResult)
  | offerResult (random : DialID) (result : DialResult)
  | awaitTaken (random : DialID) (result : DialResult)
  | connsGet (connID : ConnectID) (k : AfterGet)
  | sendReadCh (random : DialID) (pkt : Packet) (data : Bytes)
  | closeReadCh (random : DialID)
  | sendCloseCh (random : DialID) (pkt : Packet) (error : String)
  | closeCloseCh (random : DialID)
  | connsRemove (connID : ConnectID)
  | closeAll
  | closeDone
  | updateMetric (status : ConnectionStatus)
  | swapStatus (status : ConnectionStatus)
  | gaugeDec (status : ConnectionStatus)
  | gaugeInc (status : ConnectionStatus)
  | closeMetric
  | loadStatus
  | send (pkt : Packet) (k : AfterSend)
  | checkDone (random : DialID) (protocol address : String)
  | pendingAdd (random : DialID)
  | awaitResult (random : DialID)
  | connsAdd (connID : ConnectID) (random : DialID)
  | pendingRemove (random : DialID)
  | closeCancelCh (random : DialID)
  | dialReturn (random : DialID) (ret : DialReturn)
  | connClose (random : DialID)
  | closeCheckDone (random : DialID)
  | awaitClose (random : DialID)
  | closeTunnel
  deriving DecidableEq, Repr

/-- The cases of the `select`s. -/
inductive Case where
  /-- The channel operation the code waits for. -/
  | proceed
  | timeout
  /-- `cancelCh` in `serve`, `requestCtx` in `dialContext`. -/
  | cancelled
  | ctxDone
  /-- The `done` of the tunnel. -/
  | tunnelDone
  deriving DecidableEq, Repr

structure Choice where
  ok : Bool := true
  err : String := ""
  case : Case := .proceed
  deriving DecidableEq, Repr

/-- The deferred function of `serve`. -/
def serveExit : List Op := [.closeAll, .closeMetric, .closeDone]

/-- The deferred calls of `dialContext`, and its return. -/
def dialExit (random : DialID) (ret : DialReturn) : List Op :=
  [.pendingRemove random, .closeCancelCh random, .dialReturn random ret]

/-- After `conns.get`. -/
def AfterGet.next (connID : ConnectID) : AfterGet → Option DialID → List Op
  | .data _ _, none => [.send (.newCloseRequest connID) .done]
  | .data pkt payload, some r => [.sendReadCh r pkt payload]
  | .closeRsp _ _, none => []
  | .closeRsp pkt error, some r =>
      [.closeReadCh r, .sendCloseCh r pkt error, .closeCloseCh r, .connsRemove connID] ++ serveExit

/-- After a `Send`. -/
def AfterSend.next (err : String) : AfterSend → Bool → List Op × Option (Tid × List Op)
  | .done, _ => ([], none)
  | .dialReq r, true => ([.awaitResult r], none)
  | .dialReq r, false => (dialExit r (.failed ⟨err, .unknown⟩), none)
  | .closeConn r, _ => ([], some (.awaiter, [.awaitClose r]))

/-- After `dialContext` has received its result. -/
def DialResult.next (random : DialID) (res : DialResult) : List Op :=
  match res.err with
  | some err => dialExit random (.failed err)
  | none => .connsAdd res.connid random :: dialExit random (.conn res.connid)

/-- The goroutine that withdraws a dial and closes the tunnel. -/
def canceller (random : DialID) : Option (Tid × List Op) :=
  some (.canceller, [.send (.newDialClose random) .done, .closeTunnel])

/-! ## One operation -/

/-- The body of the loop of `serve`; `none` is a nil payload. -/
def serve (pkt : Packet) : Option (List Op) :=
  match pkt.type with
  | .dialRsp => pkt.getDialResponse.map fun resp =>
      let err := if resp.error ≠ "" then some ⟨resp.error, .endpoint⟩ else none
      [.pendingGet resp.random ⟨err, resp.connectID⟩]
  | .dialCls => pkt.getCloseDial.map fun resp =>
      [.pendingGet resp.random ⟨some ⟨"dial closed", .dialClosed⟩, 0⟩]
  | .data => pkt.getData.map fun resp =>
      if resp.connectID = 0 then [] else [.connsGet resp.connectID (.data pkt resp.data)]
  | .closeRsp => pkt.getCloseResponse.map fun resp =>
      [.connsGet resp.connectID (.closeRsp pkt resp.error)]
  | _ => some []

/-- `close(conn.readCh)`. -/
def TunnelState.closeReadCh (s : TunnelState) (r : DialID) : TunnelState :=
  match (s.conn r).readCh.close with
  | .error reason => (s.record (.readClosed r)).crash (.chan reason)
  | .ok ch => (s.record (.readClosed r)).setConn r { s.conn r with readCh := ch }

/-- The `select` of `serve` with a result for `resultCh`. -/
def TunnelState.awaitTaken (s : TunnelState) (random : DialID) (result : DialResult) :
    Case → Option (TunnelState × List Op)
  | .proceed =>
      if (s.chans random).taken then
        some (s.setChans random { s.chans random with offer := none, taken := false },
          if result.err.isSome then serveExit else [])
      else none
  | .cancelled =>
      if (s.chans random).cancelled && !(s.chans random).taken then
        some (s.setChans random { s.chans random with offer := none }, serveExit)
      else none
  | .ctxDone =>
      if s.ctxDone && !(s.chans random).taken then
        some (s.setChans random { s.chans random with offer := none }, serveExit)
      else none
  | _ => none

/-- The `select` of `dialContext`. -/
def TunnelState.awaitResult (s : TunnelState) (random : DialID) :
    Case → Option (TunnelState × List Op × Option (Tid × List Op))
  | .proceed =>
      match (s.chans random).offer, (s.chans random).taken with
      | some res, false =>
          some ((s.setChans random { s.chans random with taken := true }).record
            (.handed random res), res.next random, none)
      | _, _ => none
  | .timeout =>
      some (s, dialExit random (.failed ⟨"dial timeout, backstop", .timeout⟩), canceller random)
  | .cancelled =>
      some (s, dialExit random (.failed ⟨"dial timeout, context", .context⟩), canceller random)
  | .tunnelDone =>
      if s.done then some (s, dialExit random (.failed ⟨"tunnel closed", .tunnelClosed⟩), none)
      else none
  | .ctxDone => none

/-- The `select` of `serve` with the payload of a `DATA` packet. -/
def TunnelState.sendReadCh (s : TunnelState) (random : DialID) (pkt : Packet) (data : Bytes) :
    Case → Option (TunnelState × List Op)
  | .proceed =>
      match (s.conn random).readCh.send data with
      | none => none
      | some (.error reason) => some (s.crash (.chan reason), [])
      | some (.ok ch) =>
          some ((s.setConn random { s.conn random with readCh := ch }).record
            (.delivered random pkt), [])
  | .timeout => some (s, serveExit)
  | .ctxDone => if s.ctxDone then some (s, []) else none
  | _ => none

/-- Perform one operation of goroutine `t`. -/
def exec (s : TunnelState) (t : Tid) (c : Choice) :
    Op → Option (TunnelState × List Op × Option (Tid × List Op))
  | .dispatch pkt =>
      if s.closing then some (s, serveExit, none)
      else
        match serve pkt with
        | none => some (s.crash .nilPayload, [], none)
        | some ops => some (s, ops, none)
  | .pendingGet random result =>
      match s.pendingDial.lookup random with
      | none => some (s, serveExit, none)
      | some _ =>
          some (s, (if result.err.isNone then [.updateMetric .ok] else []) ++
            [.offerResult random result], none)
  | .offerResult random result =>
      some (s.setChans random { s.chans random with offer := some result },
        [.awaitTaken random result], none)
  | .awaitTaken random result =>
      (s.awaitTaken random result c.case).map fun (s', ops) => (s', ops, none)
  | .connsGet connID k => some (s, k.next connID (s.conns.lookup connID), none)
  | .sendReadCh random pkt data =>
      (s.sendReadCh random pkt data c.case).map fun (s', ops) => (s', ops, none)
  | .closeReadCh random => some (s.closeReadCh random, [], none)
  | .sendCloseCh random pkt error =>
      match (s.conn random).closeCh.send error with
      | none => none
      | some (.error reason) => some (s.crash (.chan reason), [], none)
      | some (.ok ch) =>
          some ((s.setConn random { s.conn random with closeCh := ch }).record
            (.delivered random pkt), [], none)
  | .closeCloseCh random =>
      match (s.conn random).closeCh.close with
      | .error reason => some (s.crash (.chan reason), [], none)
      | .ok ch => some (s.setConn random { s.conn random with closeCh := ch }, [], none)
  | .connsRemove connID => some ({ s with conns := s.conns.erase connID }, [], none)
  | .closeAll => some (s.conns.values.foldl TunnelState.closeReadCh s, [], none)
  | .closeDone => some ({ s with done := true }, [], none)
  | .updateMetric status => some (s, if s.done then [] else [.swapStatus status], none)
  | .swapStatus status =>
      some ({ s with prevStatus := status }, [.gaugeDec s.prevStatus, .gaugeInc status], none)
  | .gaugeDec status =>
      some ({ s with gauge := Function.update s.gauge status (s.gauge status - 1) }, [], none)
  | .gaugeInc status =>
      some ({ s with gauge := Function.update s.gauge status (s.gauge status + 1) }, [], none)
  | .closeMetric => some (s, if s.done then [] else [.loadStatus], none)
  | .loadStatus => some (s, [.gaugeDec s.prevStatus], none)
  | .send pkt k =>
      let (ops, start) := k.next c.err c.ok
      some (s.record (.sent t pkt c.ok), ops, start)
  | .checkDone random protocol address =>
      if s.done then
        some (s, [.dialReturn random (.failed ⟨"tunnel is closed", .unknown⟩)], none)
      else if protocol ≠ "tcp" then
        some (s, [.dialReturn random (.failed ⟨"protocol not supported", .unknown⟩)], none)
      else
        some (s, [.updateMetric .dialing, .pendingAdd random,
          .send (.ofDialRequest ⟨protocol, address, random⟩) (.dialReq random)], none)
  | .pendingAdd random =>
      some ({ s with pendingDial := s.pendingDial.insert random () }, [], none)
  | .awaitResult random => s.awaitResult random c.case
  | .connsAdd connID random =>
      some (({ s with conns := s.conns.insert connID random }.setConn random
        { connID := connID }).record (.registered connID random), [], none)
  | .pendingRemove random =>
      some ({ s with pendingDial := s.pendingDial.erase random }, [], none)
  | .closeCancelCh random =>
      some (s.setChans random { s.chans random with cancelled := true }, [], none)
  | .dialReturn random ret =>
      let s' := s.record (.dialReturned random ret)
      match ret with
      | .conn _ => some (s'.setConn random { s.conn random with returned := true }, [], none)
      | .failed _ => some (s', [], none)
  | .connClose random =>
      if (s.conn random).closing then some (s, [], none)
      else some (s.setConn random { s.conn random with closing := true },
        [.closeCheckDone random], none)
  | .closeCheckDone random =>
      if s.done then some (s, [.closeTunnel], none)
      else
        let connID := (s.conn random).connID
        let pkt := if connID ≠ 0 then .newCloseRequest connID else .newDialClose random
        some (s, [.send pkt (.closeConn random)], none)
  | .awaitClose random =>
      match c.case with
      | .proceed =>
          match (s.conn random).closeCh.recv with
          | none => none
          | some (_, ch) =>
              some (s.setConn random { s.conn random with closeCh := ch }, [.closeTunnel], none)
      | .tunnelDone => if s.done then some (s, [.closeTunnel], none) else none
      | .timeout => some (s, [.closeTunnel], none)
      | _ => none
  | .closeTunnel => some ({ s with closing := true }, [], none)

/-! ## Steps -/

inductive TunnelAction where
  /-- `serve` receives a packet. -/
  | receive (pkt : Packet)
  /-- `Recv` returns an error. -/
  | recvEnd
  /-- The tunnel context ends. -/
  | cancelTunnel
  | dialContext (random : DialID) (protocol address : String)
  /-- `conn.Read` with a buffer of `n` bytes. -/
  | read (random : DialID) (n : Nat)
  /-- `conn.Write` by user goroutine `k`. -/
  | write (k : Nat) (random : DialID) (data : Bytes)
  /-- `conn.Close` by user goroutine `k`. -/
  | close (k : Nat) (random : DialID)
  deriving DecidableEq, Repr

/-- `conn.Read`, after it has got hold of a payload. -/
def Conn.read (c : Conn) (n : Nat) (data : Bytes) : Conn × Option Bytes :=
  if data = [] then (c, none)
  else if n < data.length then ({ c with rdata := data.drop n }, some (data.take n))
  else ({ c with rdata := [] }, some data)

def arrive (s : TunnelState) : TunnelAction → Option (TunnelState × Option (Tid × List Op))
  | .receive pkt =>
      if s.done then none else some (s.record (.received pkt), some (.serve, [.dispatch pkt]))
  | .recvEnd => if s.done then none else some (s, some (.serve, serveExit))
  | .cancelTunnel => some ({ s with ctxDone := true }, none)
  | .dialContext random protocol address =>
      if s.started then
        some (s.record (.dialReturned random
          (.failed ⟨"single-use dialer already dialed", .alreadyStarted⟩)), none)
      else
        some ({ s with started := true }.record (.dialing random),
          some (.dial, [.checkDone random protocol address]))
  | .read random n =>
      let c := s.conn random
      if !c.returned then none
      else if c.rdata ≠ [] then
        let (c, ret) := c.read n c.rdata
        some ((s.setConn random c).record (.readReturned random ret), none)
      else
        match c.readCh.recv with
        | none => none
        | some (data, ch) =>
            let (c, ret) := { c with readCh := ch }.read n (data.getD [])
            some ((s.setConn random c).record (.readReturned random ret), none)
  | .write k random data =>
      if (s.conn random).returned then
        some (s, some (.user k, [.send (.ofData ⟨(s.conn random).connID, "", data⟩) .done]))
      else none
  | .close k random =>
      if (s.conn random).returned then some (s, some (.user k, [.connClose random])) else none

/-- The tunnel; once it has panicked it makes no step. -/
def tunnel : System TunnelState Tid Op TunnelAction Choice where
  exec := exec
  arrive := arrive
  halted := fun s => s.panic.isSome

/-- `newUnstartedTunnel`, with `serve` running. -/
def newTunnel : System.State TunnelState Tid Op := ⟨{}, fun _ => []⟩

end Konnectivity.Client
