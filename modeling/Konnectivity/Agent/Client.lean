import Konnectivity.Lib.GoChan
import Konnectivity.Lib.GoMap
import Konnectivity.Lib.Threads
import Konnectivity.Proto.Packet

/-!
# The agent client

`Client.Serve` with the goroutines it starts. A `DIAL_REQ` makes an
`endpointConn` and starts a goroutine that dials; a connection then has three
more, `remoteToSendChannel`, `sendChannelToProxy` and `dataChannelToRemote`.
Whoever is first to call `cleanup` runs `cleanFunc`, and the others wait.

The two directions of the agent stream are FIFO channels. What the remotes, the
network and the rest of the agent do is chosen: results of dials, reads and
writes, errors of the stream, and when somebody closes the client. Connections
are told apart by the number of their `DIAL_REQ`; the `connID` on the wire and
in `connManager` is that number as an `int64`, which wraps.
-/

namespace Konnectivity.Agent.Client

open Lib

/-- A connection, by the number of its `DIAL_REQ`. -/
abbrev ConnID := Nat

/-- The `connID` of the connection. -/
def ConnID.wire (k : ConnID) : ConnectID := Int64.ofNat k

inductive Panic where
  /-- A field of a payload the packet does not have. -/
  | nilPayload
  | chan (reason : ChanPanic)
  deriving DecidableEq, Repr

structure EndpointConn where
  random : DialID := 0
  /-- `conn` is set. -/
  dialed : Bool := false
  /-- `conn.Close` was called. -/
  connClosed : Bool := false
  dataCh : GoChan Bytes := ⟨0, [], false⟩
  dialDone : GoChan Unit := ⟨0, [], false⟩
  sendCh : GoChan Bytes := ⟨0, [], false⟩
  sendDone : GoChan Unit := ⟨0, [], false⟩
  /-- `cleanOnce` has been entered, and left. -/
  onceEntered : Bool := false
  onceDone : Bool := false
  deriving DecidableEq, Repr

inductive Event where
  /-- `net.DialTimeout` returned a connection. -/
  | dialed (k : ConnID)
  | added (k : ConnID)
  | deleted (k : ConnID)
  /-- `cleanFunc` has waited for `dialDone`. -/
  | cleaning (k : ConnID)
  /-- `conn.Close` was called. -/
  | connClosed (k : ConnID)
  /-- `Serve` received a `DATA` for a registered connection. -/
  | data (k : ConnID) (b : Bytes)
  /-- `Serve` received a `CLOSE_REQ` for a registered connection. -/
  | closeReq (k : ConnID)
  /-- These bytes went to the remote. -/
  | wrote (k : ConnID) (b : Bytes)
  /-- `conn.Write` took nothing, and the connection was not closed. -/
  | writeFailed (k : ConnID)
  /-- These bytes came from the remote. -/
  | read (k : ConnID) (b : Bytes)
  /-- `conn.Read` returned an error, and the connection was not closed. -/
  | remoteEnded (k : ConnID)
  /-- The stream took the packet. -/
  | sent (pkt : Packet)
  deriving DecidableEq, Repr

inductive Tid where
  | serve
  | dial (k : ConnID)
  /-- `remoteToSendChannel`. -/
  | reader (k : ConnID)
  /-- `sendChannelToProxy`. -/
  | sender (k : ConnID)
  /-- `dataChannelToRemote`. -/
  | writer (k : ConnID)
  /-- The `cleanup` after a `DIAL_RSP` that was not sent. -/
  | cleaner (k : ConnID)
  /-- `sendDrainWhenRequested`. -/
  | drain
  deriving DecidableEq, Repr

structure ClientState where
  xfrChannelSize : Nat
  nextConnID : ConnID := 0
  econn : ConnID → EndpointConn := fun _ => {}
  /-- `connManager`. -/
  connections : GoMap ConnectID ConnID := ∅
  sendLock : Option Tid := none
  /-- `a.conn.Close` was called. -/
  grpcClosed : Bool := false
  /-- `stopCh` is closed. -/
  stopped : Bool := false
  /-- `Serve` has returned. -/
  served : Bool := false
  /-- `drainCh` is closed. -/
  drained : Bool := false
  fromServer : GoChan Packet
  toServer : GoChan Packet
  log : List Event := []
  panic : Option Panic := none

namespace ClientState

variable (s : ClientState)

@[simps]
def record (e : Event) : ClientState := { s with log := e :: s.log }

@[simps]
def setConn (k : ConnID) (e : EndpointConn) : ClientState :=
  { s with econn := Function.update s.econn k e }

/-- `connManager.Get`. -/
def get (id : ConnectID) : Option ConnID := s.connections.lookup id

/-- `removeClient`, which leaves a client alone that is closed. -/
@[simps]
def removeClient : ClientState := { s with grpcClosed := true, stopped := true }

end ClientState

/-- Who called `cleanup`. -/
inductive CleanCaller where
  | serve
  /-- The end of `Serve`, with the connections that are left. -/
  | exit (rest : List ConnID)
  | reader
  | cleaner
  deriving DecidableEq, Repr

/-- Who called `Client.Send`. -/
inductive SendCaller where
  | dialFailed (k : ConnID)
  | dialOk (k : ConnID)
  | cleanup (k : ConnID) (caller : CleanCaller)
  | data (k : ConnID)
  | serve
  | drain
  deriving DecidableEq, Repr

inductive Op where
  | serveLoop
  | recv
  | recvFailed
  | serve (pkt : Packet)
  | sendViaDataChannel (k : ConnID) (b : Bytes)
  | list
  | cleanupAll (rest : List ConnID)
  | serveReturn
  | send (pkt : Packet) (caller : SendCaller)
  | streamSend (pkt : Packet) (caller : SendCaller) (begunClosed : Bool)
  | removeClient (caller : SendCaller)
  | sendReturn (caller : SendCaller) (ok : Bool)
  | netDial (k : ConnID) (req : DialRequest)
  | addConn (k : ConnID)
  | failSendDone (k : ConnID) (dialed : Bool)
  | discardSendCh (k : ConnID)
  | startCleaner (k : ConnID)
  | startReader (k : ConnID)
  | startSender (k : ConnID)
  | startWriter (k : ConnID)
  | closeDialDone (k : ConnID)
  | cleanup (k : ConnID) (caller : CleanCaller)
  | waitDialDone (k : ConnID) (caller : CleanCaller)
  | closeSendCh (k : ConnID) (caller : CleanCaller)
  | waitSendDone (k : ConnID) (caller : CleanCaller)
  | closeDataCh (k : ConnID) (caller : CleanCaller)
  | deleteConn (k : ConnID) (caller : CleanCaller)
  | connClose (k : ConnID) (caller : CleanCaller)
  | onceDone (k : ConnID) (caller : CleanCaller)
  | connRead (k : ConnID)
  | sendChSend (k : ConnID) (b : Bytes)
  | sendChRecv (k : ConnID)
  | drainSendCh (k : ConnID)
  | closeSendDone (k : ConnID)
  | dataChRecv (k : ConnID)
  | connWrite (k : ConnID) (b : Bytes)
  | drainDataCh (k : ConnID)
  deriving DecidableEq, Repr

inductive ReadResult where
  | data (b : Bytes)
  | error
  deriving DecidableEq, Repr

inductive WriteResult where
  | ok
  /-- An error after some bytes. -/
  | part (n : Nat)
  | error
  deriving DecidableEq, Repr

inductive SendResult where
  | ok
  | eof
  | error
  deriving DecidableEq, Repr

structure Choice where
  /-- `Recv` returns an error. -/
  recvErr : Bool := false
  /-- The error of `net.DialTimeout`. -/
  dialErr : Option String := none
  read : ReadResult := .error
  write : WriteResult := .ok
  send : SendResult := .ok
  /-- The `select` on `stopCh` takes that case. -/
  stop : Bool := false
  /-- Which of the connections is cleaned up next. -/
  pick : Nat := 0
  deriving DecidableEq, Repr

def CleanCaller.returned : CleanCaller → List Op
  | .serve => [.serveLoop]
  | .exit rest => [.cleanupAll rest]
  | .reader | .cleaner => []

/-- The `CLOSE_RSP` of `cleanFunc`. -/
def closePkt (k : ConnID) (random : DialID) : Packet :=
  if k.wire = 0 then .ofCloseDial { random := random }
  else .ofCloseResponse { connectID := k.wire, error := "" }

/-- The answers of `Serve` to a connection it does not know. -/
def unrecognized (id : ConnectID) : Packet :=
  .ofCloseResponse { connectID := id, error := "unrecognized connectID" }

def unknown (id : ConnectID) : Packet :=
  .ofCloseResponse { connectID := id, error := "Unknown connectID" }

def drainPkt : Packet := ⟨.drain, some .drain⟩

/-- What follows a call of `Client.Send`. -/
def SendCaller.returned : SendCaller → Bool → List Op
  | .dialFailed k, _ => [.failSendDone k false]
  | .dialOk k, true => [.startReader k]
  | .dialOk k, false => [.failSendDone k true]
  | .cleanup k caller, _ => [.closeDataCh k caller]
  | .data k, true => [.sendChRecv k]
  | .data k, false => [.drainSendCh k]
  | .serve, _ => [.serveLoop]
  | .drain, _ => []

/-- The branches of the `switch` in `Serve`. -/
def servePacket (s : ClientState) (pkt : Packet) : ClientState × List Op × Option (Tid × List Op) :=
  match pkt.type with
  | .dialReq =>
      match pkt.getDialRequest with
      | none => ({ s with panic := some .nilPayload }, [], none)
      | some req =>
          let k := s.nextConnID + 1
          let e : EndpointConn :=
            { random := req.random, dataCh := ⟨s.xfrChannelSize, [], false⟩,
              sendCh := ⟨s.xfrChannelSize, [], false⟩ }
          ({ s with nextConnID := k }.setConn k e, [.serveLoop], some (.dial k, [.netDial k req]))
  | .data =>
      match pkt.getData with
      | none => ({ s with panic := some .nilPayload }, [], none)
      | some m =>
          if m.connectID = 0 then (s, [.serveLoop], none)
          else
            match s.get m.connectID with
            | some k => (s.record (.data k m.data), [.sendViaDataChannel k m.data], none)
            | none => (s, [.send (unrecognized m.connectID) .serve], none)
  | .closeReq =>
      match pkt.getCloseRequest with
      | none => ({ s with panic := some .nilPayload }, [], none)
      | some m =>
          match s.get m.connectID with
          | some k => (s.record (.closeReq k), [.cleanup k .serve], none)
          | none => (s, [.send (unknown m.connectID) .serve], none)
  | _ => (s, [.serveLoop], none)

/-- `close(ch)` of a channel of a connection. -/
def closeCh {α : Type} (s : ClientState) (k : ConnID) (ch : GoChan α)
    (set : GoChan α → EndpointConn) (ops : List Op) :
    Option (ClientState × List Op × Option (Tid × List Op)) :=
  match ch.close with
  | .error reason => some ({ s with panic := some (.chan reason) }, [], none)
  | .ok ch => some (s.setConn k (set ch), ops, none)

def exec (s : ClientState) (t : Tid) (c : Choice) :
    Op → Option (ClientState × List Op × Option (Tid × List Op))
  -- Serve
  | .serveLoop => some (s, if s.stopped then [.list] else [.recv], none)
  | .recv =>
      if c.recvErr then some (s, [.recvFailed], none)
      else
        match s.fromServer.recv with
        | some (some pkt, ch) => some ({ s with fromServer := ch }, [.serve pkt], none)
        | _ => none
  | .recvFailed => some (if s.stopped then s else s.removeClient, [.list], none)
  | .serve pkt => some (servePacket s pkt)
  | .sendViaDataChannel k b =>
      let e := s.econn k
      match e.dataCh.send b with
      | none => none
      -- the panic is recovered
      | some (.error _) => some (s, [.serveLoop], none)
      | some (.ok ch) => some (s.setConn k { e with dataCh := ch }, [.serveLoop], none)
  | .list => some (s, [.cleanupAll s.connections.values], none)
  | .cleanupAll [] => some (s, [.serveReturn], none)
  | .cleanupAll (k :: rest) =>
      match (k :: rest)[c.pick]? with
      | none => none
      | some k' => some (s, [.cleanup k' (.exit ((k :: rest).eraseIdx c.pick))], none)
  | .serveReturn => some ({ s.removeClient with served := true }, [], none)
  -- Client.Send
  | .send pkt caller =>
      if s.sendLock.isSome then none
      else some ({ s with sendLock := some t }, [.streamSend pkt caller s.grpcClosed], none)
  | .streamSend pkt caller begunClosed =>
      match c.send with
      | .ok =>
          if begunClosed then none
          else
            match s.toServer.send pkt with
            | some (.ok ch) =>
                some ({ s with toServer := ch }.record (.sent pkt), [.sendReturn caller true], none)
            | _ => none
      | .eof => some (s, [.sendReturn caller false], none)
      | .error => some (s, [.removeClient caller], none)
  | .removeClient caller => some (s.removeClient, [.sendReturn caller false], none)
  | .sendReturn caller ok => some ({ s with sendLock := none }, caller.returned ok, none)
  -- the goroutine that dials
  | .netDial k req =>
      match c.dialErr with
      | some err =>
          some (s, [.send (.ofDialResponse { error := err, connectID := 0, random := req.random })
            (.dialFailed k)], none)
      | none =>
          some ((s.setConn k { s.econn k with dialed := true }).record (.dialed k), [.addConn k],
            none)
  | .addConn k =>
      some ({ s with connections := s.connections.insert k.wire k }.record (.added k),
        [.send (.ofDialResponse { error := "", connectID := k.wire, random := (s.econn k).random })
          (.dialOk k)], none)
  | .failSendDone k dialed =>
      let e := s.econn k
      closeCh s k e.sendDone (fun ch => { e with sendDone := ch })
        [if dialed then .startCleaner k else .discardSendCh k]
  | .discardSendCh k =>
      let e := s.econn k
      match e.sendCh.recv with
      | some (_, ch) => some (s.setConn k { e with sendCh := ch }, [.discardSendCh k], none)
      | none => some (s, [.closeDialDone k], none)
  | .startCleaner k => some (s, [.closeDialDone k], some (.cleaner k, [.cleanup k .cleaner]))
  | .startReader k => some (s, [.startSender k], some (.reader k, [.connRead k]))
  | .startSender k => some (s, [.startWriter k], some (.sender k, [.sendChRecv k]))
  | .startWriter k => some (s, [.closeDialDone k], some (.writer k, [.dataChRecv k]))
  | .closeDialDone k =>
      let e := s.econn k
      closeCh s k e.dialDone (fun ch => { e with dialDone := ch }) []
  -- cleanup
  | .cleanup k caller =>
      let e := s.econn k
      if e.onceDone then some (s, caller.returned, none)
      else if e.onceEntered then none
      else some (s.setConn k { e with onceEntered := true }, [.waitDialDone k caller], none)
  | .waitDialDone k caller =>
      let e := s.econn k
      if !e.dialDone.closed then none
      else if !e.dialed then some (s, [.onceDone k caller], none)
      else some (s.record (.cleaning k), [.closeSendCh k caller], none)
  | .closeSendCh k caller =>
      let e := s.econn k
      closeCh s k e.sendCh (fun ch => { e with sendCh := ch }) [.waitSendDone k caller]
  | .waitSendDone k caller =>
      let e := s.econn k
      if e.sendDone.closed then
        some (s, [.send (closePkt k e.random) (.cleanup k caller)], none)
      else none
  | .closeDataCh k caller =>
      let e := s.econn k
      closeCh s k e.dataCh (fun ch => { e with dataCh := ch }) [.deleteConn k caller]
  | .deleteConn k caller =>
      some ({ s with connections := s.connections.erase k.wire }.record (.deleted k),
        [.connClose k caller], none)
  | .connClose k caller =>
      some ((s.setConn k { s.econn k with connClosed := true }).record (.connClosed k),
        [.onceDone k caller], none)
  | .onceDone k caller =>
      some (s.setConn k { s.econn k with onceDone := true }, caller.returned, none)
  -- remoteToSendChannel
  | .connRead k =>
      match c.read with
      | .data b =>
          if (s.econn k).connClosed = true ∨ 4096 < b.length then none
          else some (s.record (.read k b), [.sendChSend k b], none)
      | .error =>
          some (if (s.econn k).connClosed then s else s.record (.remoteEnded k),
            [.cleanup k .reader], none)
  | .sendChSend k b =>
      let e := s.econn k
      if c.stop then
        if s.stopped then some (s, [.cleanup k .reader], none) else none
      else
        match e.sendCh.send b with
        | none => none
        -- the panic is recovered
        | some (.error _) => some (s, [.cleanup k .reader], none)
        | some (.ok ch) => some (s.setConn k { e with sendCh := ch }, [.connRead k], none)
  -- sendChannelToProxy
  | .sendChRecv k =>
      let e := s.econn k
      match e.sendCh.recv with
      | none => none
      | some (none, _) => some (s, [.drainSendCh k], none)
      | some (some b, ch) =>
          some (s.setConn k { e with sendCh := ch },
            [.send (.ofData { connectID := k.wire, error := "", data := b }) (.data k)], none)
  | .drainSendCh k =>
      let e := s.econn k
      match e.sendCh.recv with
      | none => none
      | some (none, _) => some (s, [.closeSendDone k], none)
      | some (some _, ch) => some (s.setConn k { e with sendCh := ch }, [.drainSendCh k], none)
  | .closeSendDone k =>
      let e := s.econn k
      closeCh s k e.sendDone (fun ch => { e with sendDone := ch }) []
  -- dataChannelToRemote
  | .dataChRecv k =>
      let e := s.econn k
      match e.dataCh.recv with
      | none => none
      | some (none, _) => some (s, [], none)
      | some (some b, ch) => some (s.setConn k { e with dataCh := ch }, [.connWrite k b], none)
  | .connWrite k b =>
      if (s.econn k).connClosed then some (s, [.drainDataCh k], none)
      else
        match c.write with
        | .ok => some (s.record (.wrote k b), [.dataChRecv k], none)
        | .part n =>
            if 0 < n ∧ n ≤ b.length then
              some (s.record (.wrote k (b.take n)), [.connWrite k (b.drop n)], none)
            else none
        | .error => some (s.record (.writeFailed k), [.drainDataCh k], none)
  | .drainDataCh k =>
      let e := s.econn k
      match e.dataCh.recv with
      | none => none
      | some (none, _) => some (s, [], none)
      | some (some _, ch) => some (s.setConn k { e with dataCh := ch }, [.drainDataCh k], none)

/-! ## Steps -/

inductive ClientAction where
  /-- The server puts a packet into the stream. -/
  | deliver (pkt : Packet)
  /-- The server takes a packet out of the stream. -/
  | take
  /-- Somebody closes the client: the connection, then `stopCh`. -/
  | closeConn
  | closeStopCh
  /-- `drainCh` is closed. -/
  | drain
  deriving DecidableEq, Repr

def arrive (s : ClientState) : ClientAction → Option (ClientState × Option (Tid × List Op))
  | .deliver pkt =>
      match s.fromServer.send pkt with
      | some (.ok ch) => some ({ s with fromServer := ch }, none)
      | _ => none
  | .take =>
      match s.toServer.recv with
      | some (some _, ch) => some ({ s with toServer := ch }, none)
      | _ => none
  | .closeConn => some ({ s with grpcClosed := true }, none)
  | .closeStopCh => if s.grpcClosed then some ({ s with stopped := true }, none) else none
  | .drain => if s.drained then none
      else some ({ s with drained := true }, some (.drain, [.send drainPkt .drain]))

def client : System ClientState Tid Op ClientAction Choice where
  exec := exec
  arrive := arrive
  halted := fun s => s.panic.isSome

/-- A client that `Serve` was called on. -/
def newAgentClient (xfrChannelSize fromServer toServer : Nat) : System.State ClientState Tid Op :=
  ⟨{ xfrChannelSize := xfrChannelSize, fromServer := ⟨fromServer, [], false⟩,
      toServer := ⟨toServer, [], false⟩ },
    fun t => if t = .serve then [.serveLoop] else []⟩

end Konnectivity.Agent.Client
