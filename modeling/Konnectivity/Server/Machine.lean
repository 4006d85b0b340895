import Konnectivity.Lib.Threads
import Konnectivity.Server.Thread

/-!
# The proxy server as a machine

The state of the server between two operations, and what each operation does
to it. An action either lets a goroutine perform its next operation or is
something that happens to the server: an agent connects, its dispatcher takes
the next packet from `recvCh`, its stream ends, a frontend opens a stream,
sends a packet or goes away, somebody dials in process or closes a connection.

The managers are left out here: `getBackend` may answer with any backend that
is currently added, or with an error. What they really choose is a case of
that (`Konnectivity.Storage`). Metrics are left out too, except for the
closed connections that are counted.

The log is history: what was received, handed over, entered in `established`
and removed from it, newest event first. No operation reads it.
-/

namespace Konnectivity

open Lib

inductive Panic where
  /-- A field of a payload that is not there. -/
  | nilPayload
  /-- A method of a nil frontend or backend. -/
  | nilPointer
  /-- The second `close` of a channel. -/
  | closeOfClosedChannel
  deriving DecidableEq, Repr

/-- An agent stream, from `connect` on. -/
structure BackendState where
  connected : Bool := false
  /-- The managers have it. -/
  registered : Bool := false
  /-- `recvCh` is closed. -/
  stopped : Bool := false
  receivedEOF : Bool := false
  /-- The stream's context has ended. -/
  ctxDone : Bool := false
  /-- The dispatcher has left its loop. -/
  draining : Bool := false
  /-- The dispatcher has returned. -/
  exited : Bool := false
  deriving DecidableEq, Repr

/-- What `httpConnectStream` is told when it is built. -/
structure HTTPConnect where
  host : String
  dialID : DialID
  deriving DecidableEq, Repr

inductive ProxyLoop where
  | running
  /-- `serveRecvFrontend` has left its loop and discards packets. -/
  | discarding
  /-- `recvCh` is closed; the deferred cleanup of `proxy` runs. -/
  | cleaning
  | returned
  deriving DecidableEq, Repr

/-- A frontend stream, from `proxy` on, with the variables of its handler. -/
structure StreamState where
  opened : Bool := false
  http : Option HTTPConnect := none
  loop : ProxyLoop := .running
  backend : Option BackendId := none
  firstConnID : ConnectID := 0
  /-- Fields of `httpConnectStream`. -/
  dialRequested : Bool := false
  connectID : ConnectID := 0
  connected : Bool := false
  deriving DecidableEq, Repr

/-- A `serverConn`. -/
structure ConnState where
  backend : BackendId := 0
  connID : ConnectID := 0
  closed : Bool := false
  localClosed : Bool := false
  connected : Bool := false
  dialErr : Bool := false
  /-- The state of `closeOnce`. -/
  closeStarted : Bool := false
  closeDone : Bool := false
  /-- The backend whose context `closeWithBackend` watches. -/
  watched : Option BackendId := none
  /-- What `dialBackend` has returned: a connection or an error. -/
  result : Option Bool := none
  deriving DecidableEq, Repr

inductive Event where
  | fromBackend (b : BackendId) (pkt : Packet)
  | fromFrontend (f : Frontend) (pkt : Packet)
  | dialing (f : Frontend) (b : BackendId) (random : DialID)
  /-- The dial has been entered in the pending map. -/
  | pendingAdded (random : DialID)
  | toFrontend (t : Tid) (f : Frontend) (pkt : Packet) (ok : Bool)
  | toBackend (t : Tid) (b : BackendId) (pkt : Packet) (ok : Bool)
  | queued (t : Tid) (b : BackendId) (pkt : Packet)
  | entered (t : Tid) (agentID : AgentID) (connID : ConnectID) (p : ProxyClientConnection)
  | overwritten (t : Tid) (agentID : AgentID) (connID : ConnectID) (p : ProxyClientConnection)
  | removed (t : Tid) (agentID : AgentID) (connID : ConnectID) (p : ProxyClientConnection)
  | countedClosed (n : Nat)
  /-- The frontend has gone and the cleanup of `proxy` begins. -/
  | frontendGone (u : StreamUID)
  /-- `removeForBackend` has run. -/
  | failedPending (b : BackendId)
  /-- `removeEstablishedForBackendConn` has run. -/
  | closedEstablished (b : BackendId)
  /-- `removeEstablishedForStream` has run. -/
  | scannedEstablished (u : StreamUID)
  deriving DecidableEq, Repr

structure ServerState where
  pendingDial : PendingDialManager := {}
  established : Established := ∅
  backends : BackendId → BackendState := fun _ => {}
  streams : StreamUID → StreamState := fun _ => {}
  conns : DialID → ConnState := fun _ => {}
  log : List Event := []
  panic : Option Panic := none

/-- What the server is started with. -/
structure ServerConfig where
  info : BackendId → BackendInfo
  /-- `backendDialTimeout > 0`. -/
  dialTimeout : Bool

namespace ServerConfig

/-- `backend.GetAgentID()`. -/
def agentID (cfg : ServerConfig) (b : BackendId) : AgentID := (cfg.info b).id

end ServerConfig

namespace ServerState

variable (s : ServerState)

@[simps]
def setBackend (b : BackendId) (x : BackendState) : ServerState :=
  { s with backends := Function.update s.backends b x }

@[simps]
def setStream (u : StreamUID) (x : StreamState) : ServerState :=
  { s with streams := Function.update s.streams u x }

@[simps]
def setConn (r : DialID) (x : ConnState) : ServerState :=
  { s with conns := Function.update s.conns r x }

@[simps]
def record (e : Event) : ServerState := { s with log := e :: s.log }

@[simps]
def recordAll (es : List Event) : ServerState := { s with log := es ++ s.log }

@[simps]
def crash (reason : Panic) : ServerState := { s with panic := some reason }

end ServerState

/-! ## Handing a packet to a frontend -/

/-- `serverConn.Send`. A `DATA` packet waits for room in the buffer, so that
it is handed over or refused because the connection is closed. -/
def ConnState.send (c : ConnState) (pkt : Packet) : ConnState × Bool :=
  match pkt.type with
  | .closeRsp => ({ c with closed := true }, true)
  | .dialCls => ({ c with dialErr := true }, true)
  | .data => (c, !c.closed)
  | .dialRsp =>
      match pkt.getDialResponse with
      | none => (c, false)
      | some resp =>
          if resp.error ≠ "" then ({ c with dialErr := true }, true)
          else if c.closed then (c, false)
          else ({ c with connID := resp.connectID, connected := true }, true)
  | _ => (c, false)

/-- The `Send` of a frontend stream. `httpConnectStream` writes the HTTP
response to a successful `DIAL_RSP` and closes `connected`. -/
def StreamState.send (st : StreamState) (pkt : Packet) (ok : Bool) : Except Panic StreamState :=
  match st.http, pkt.type, pkt.getDialResponse with
  | some _, .dialRsp, some resp =>
      if resp.error ≠ "" then .ok st
      else
        let st := { st with connectID := resp.connectID }
        if !ok then .ok st
        else if st.connected then .error .closeOfClosedChannel
        else .ok { st with connected := true }
  | _, _, _ => .ok st

/-- `Frontend.Send`: the result, or `none` where the choice does not fit. -/
def ServerState.sendFrontend (s : ServerState) (t : Tid) (f : Frontend) (pkt : Packet)
    (ok : Bool) : Option (ServerState × Bool) :=
  match f.stream with
  | .serverConn r =>
      let (conn, ok) := (s.conns r).send pkt
      some ((s.setConn r conn).record (.toFrontend t f pkt ok), ok)
  | .proxy =>
      let st := s.streams f.streamUID
      -- A stream accepts packets until its handler has returned.
      if ok && st.loop == .returned then none
      else
        match st.send pkt ok with
        | .error reason => some (s.crash reason, ok)
        | .ok st => some ((s.setStream f.streamUID st).record (.toFrontend t f pkt ok), ok)

/-- Taking a case of the `select` in `dialBackend`: `dialErrCh` holds one error. -/
def ConnState.take (c : ConnState) : DialCase → ConnState
  | .dialErr => { c with dialErr := false }
  | _ => c

/-! ## One operation -/

variable (cfg : ServerConfig)

/-- The cases of the `select` in `dialBackend` that can be taken. -/
def ServerState.ready (s : ServerState) (conn : ConnState) : DialCase → Bool
  | .connected => conn.connected
  | .dialErr => conn.dialErr
  | .backendDone => (s.backends conn.backend).ctxDone
  | .timeout => cfg.dialTimeout
  | .cancelled => true

/-- Perform one operation of goroutine `t`. The result lists the operations
that come before the rest of the goroutine, and a goroutine to start. -/
def exec (s : ServerState) (t : Tid) (c : Choice) :
    Op → Option (ServerState × List Op × Option (Tid × List Op))
  | .pendingAdd random p =>
      some ({ s with pendingDial := s.pendingDial.add random p }.record (.pendingAdded random),
        [], none)
  | .pendingRemove random k =>
      let (pd, pm) := s.pendingDial.remove random
      some ({ s with pendingDial := pm }, k.next cfg.agentID random pd, none)
  | .pendingRemoveForBackend b =>
      let (ret, pm) := s.pendingDial.removeForBackend (some b)
      if c.order.Perm ret then
        some ({ s with pendingDial := pm }.record (.failedPending b),
          c.order.map fun p =>
            .sendFrontend p.frontend (.newDialFailure p.dialID errBackendClosedWhileDialing) .done,
          none)
      else none
  | .pendingRemoveForStream u =>
      let (ret, pm) := s.pendingDial.removeForStream u
      if c.order.Perm ret then
        some ({ s with pendingDial := pm },
          c.order.map fun p => sendBackendDialClose p.backend p.dialID, none)
      else none
  | .addEstablished b connID p =>
      let a := cfg.agentID b
      let s' := { s with established := s.established.add a connID p }
      let s' :=
        match s.established.getFrontend a connID with
        | none => s'
        | some old => s'.record (.overwritten t a connID old)
      some (s'.record (.entered t a connID p), [], none)
  | .closeWithBackend f b =>
      match f with
      | none => some (s.crash .nilPointer, [], none)
      | some f =>
          match f.stream with
          | .proxy => some (s, [], none)
          | .serverConn r =>
              some (s.setConn r { s.conns r with watched := some b }, [], none)
  | .removeEstablished a connID k =>
      let (p, es) := s.established.remove a connID
      let s' := { s with established := es }
      match p with
      | none => some (s', k.next connID none, none)
      | some p => some (s'.record (.removed t a connID p), k.next connID (some p), none)
  | .getFrontend b connID pkt =>
      match s.established.getFrontend (cfg.agentID b) connID with
      | none => some (s, [sendBackendClose (some b) connID], none)
      | some p => some (s, [.sendFrontend p.frontend pkt .done], none)
  | .removeEstablishedForBackendConn b =>
      let (ret, es) := s.established.removeForBackendConn (cfg.agentID b) b
      let s' := { s with established := es }.record (.closedEstablished b)
      match ret with
      | none => some (s', [], none)
      | some ret =>
          if c.order.Perm ret then
            some (s'.recordAll
                (c.order.map fun p => .removed t (cfg.agentID b) p.connectID p),
              (if c.order.length > 0 then [.observeClosed c.order.length] else []) ++
                c.order.map fun p =>
                  .sendFrontend p.frontend (.ofCloseResponse ⟨"", p.connectID⟩) .done,
              none)
          else none
  | .removeEstablishedForStream u =>
      let (ret, es) := s.established.removeForStream u
      if c.order.Perm ret then
        let s' := { s with established := es }.record (.scannedEstablished u)
        some (s'.recordAll (c.order.map fun p => .removed t p.agentID p.connectID p),
          c.order.flatMap fun p => [.observeClosed 1, sendBackendClose p.backend p.connectID],
          none)
      else none
  | .sendFrontend f pkt k =>
      match f with
      | none => some (s.crash .nilPointer, [], none)
      | some f =>
          match s.sendFrontend t f pkt c.ok with
          | none => none
          | some (s', ok) => some (s', k.next cfg.agentID ok, none)
  | .sendBackend b pkt k =>
      match b with
      | none => some (s.crash .nilPointer, [], none)
      | some b =>
          -- The stream may accept packets until its context has ended.
          if c.ok && (s.backends b).ctxDone then none
          else some (s.record (.toBackend t b pkt c.ok), k.next b c.err c.ok, none)
  | .queueSend b pkt => some (s.record (.queued t b pkt), [], none)
  | .observeClosed n => some (s.record (.countedClosed n), [], none)
  | .exitDispatcher b =>
      some (s.setBackend b { s.backends b with exited := true }, [], none)
  | .selectBackend f req pkt =>
      let st := s.streams f.streamUID
      match c.backend with
      | none =>
          some (s.setStream f.streamUID { st with backend := none },
            [.sendFrontend (some f) (.newDialFailure req.random c.err) .done,
              .returnLoop f.streamUID], none)
      | some b =>
          if (s.backends b).registered then
            some ((s.setStream f.streamUID { st with backend := some b }).record
                (.dialing f b req.random),
              [.pendingAdd req.random
                  { frontend := some f, dialID := req.random, backend := some b
                    dialAddress := req.address },
                .sendBackend (some b) pkt (.dialReq f req.random)], none)
          else none
  | .startPendingDialTimeout random b f =>
      if cfg.dialTimeout then some (s, [], some (.timer random, [.waitTimer random b f]))
      else some (s, [], none)
  | .waitTimer random b f =>
      if c.expired then some (s, [.pendingRemove random (.timeout f)], none)
      else if (s.backends b).ctxDone then some (s, [], none)
      else none
  | .returnLoop u =>
      some (s.setStream u { s.streams u with loop := .discarding }, [], none)
  | .handlerReturn u =>
      some (s.setStream u { s.streams u with loop := .returned }, [], none)
  | .awaitDial random =>
      let conn := s.conns random
      if s.ready cfg conn c.case then
        some (s.setConn random (conn.take c.case), c.case.next conn.backend random, none)
      else none
  | .closeOnce random =>
      let conn := s.conns random
      if !conn.closeStarted then
        some (s.setConn random { conn with closeStarted := true },
          [.closeMark random, .closeFinish random], none)
      else if conn.closeDone then some (s, [], none)
      -- `Do` waits for the call that is in progress.
      else none
  | .closeMark random =>
      let conn := s.conns random
      some (s.setConn random { conn with closed := true, localClosed := true },
        (if conn.connID = 0 then [.pendingRemove random .closeConn]
          else [.removeEstablished (cfg.agentID conn.backend) conn.connID
            (.closeConn conn.backend random)]), none)
  | .closeFinish random =>
      some (s.setConn random { s.conns random with closeDone := true }, [], none)
  | .dialReturn random ok =>
      some (s.setConn random { s.conns random with result := some ok }, [], none)

/-! ## The loops -/

/-- The body of the loop of `serveRecvBackend`; `none` is a nil payload. -/
def serveRecvBackend (b : BackendId) (pkt : Packet) : Option (List Op) :=
  match pkt.type with
  | .dialRsp => pkt.getDialResponse.map fun resp =>
      [.pendingRemove resp.random (.dialRsp b resp pkt)]
  | .dialCls => pkt.getCloseDial.map fun resp => [.pendingRemove resp.random (.dialCls pkt)]
  | .data => pkt.getData.map fun resp =>
      if resp.connectID = 0 then [] else [.getFrontend b resp.connectID pkt]
  | .closeRsp => pkt.getCloseResponse.map fun resp =>
      [.removeEstablished (cfg.agentID b) resp.connectID (.closeRsp pkt)]
  -- `markBackendDraining` concerns the managers alone.
  | .drain => some []
  | _ => some []

/-- The body of the loop of `serveRecvFrontend`, with the handler's variables. -/
def serveRecvFrontend (f : Frontend) (st : StreamState) (pkt : Packet) :
    Option (StreamState × List Op) :=
  match pkt.type with
  | .dialReq => pkt.getDialRequest.map fun req => (st, [.selectBackend f req pkt])
  | .closeReq => pkt.getCloseRequest.map fun req =>
      match st.backend with
      | none => (st, [sendFrontendClose f req.connectID "backend uninitialized"])
      | some b => (st, [.sendBackend (some b) pkt (.closeReq f req.connectID)])
  | .dialCls => pkt.getCloseDial.map fun req => (st, [.pendingRemove req.random .cancel])
  | .data => pkt.getData.map fun (req : Data) =>
      match st.backend with
      | none =>
          (st, [sendFrontendClose f req.connectID "backend not initialized",
            .returnLoop f.streamUID])
      | some b =>
          if req.connectID = (0 : ConnectID) then (st, [])
          else if st.firstConnID = 0 then
            ({ st with firstConnID := req.connectID }, [.sendBackend (some b) pkt .done])
          else if st.firstConnID ≠ req.connectID then
            (st, [sendBackendClose (some b) req.connectID,
              sendBackendClose (some b) st.firstConnID,
              sendFrontendClose f req.connectID "mismatched connection IDs",
              sendFrontendClose f st.firstConnID "mismatched connection IDs",
              .returnLoop f.streamUID])
          else (st, [.sendBackend (some b) pkt .done])
  | _ => some (st, [])

/-- `httpConnectStream.Recv`: the `DIAL_REQ` it presents, then tunnel bytes
once it is connected. A gRPC stream delivers whatever the peer sends. -/
def StreamState.recv (st : StreamState) (pkt : Packet) : Option StreamState :=
  match st.http with
  | none => some st
  | some h =>
      if !st.dialRequested then
        if pkt = .ofDialRequest ⟨"tcp", h.host, h.dialID⟩ then
          some { st with dialRequested := true }
        else none
      else if st.connected then
        match pkt.getData with
        | some d => if pkt = .ofData ⟨st.connectID, "", d.data⟩ then some st else none
        | none => none
      else none

/-! ## Steps -/

inductive ServerAction where
  /-- `connect`: the backend is added and its dispatcher starts. -/
  | connect (b : BackendId)
  /-- The dispatcher takes a packet from `recvCh`. -/
  | deliver (b : BackendId) (pkt : Packet)
  /-- `readBackendToChannel` ends and closes `recvCh`. -/
  | recvEnd (b : BackendId) (eof : Bool)
  /-- The dispatcher finds `recvCh` closed. -/
  | drained (b : BackendId)
  /-- `connect` returns and the backend is removed from the managers. -/
  | disconnect (b : BackendId)
  /-- The context of the agent stream ends. -/
  | ctxDone (b : BackendId)
  /-- `proxy` starts to serve a stream. -/
  | openStream (u : StreamUID) (http : Option HTTPConnect)
  /-- `serveRecvFrontend` takes a packet from `recvCh`. -/
  | receive (u : StreamUID) (pkt : Packet)
  /-- The frontend has gone: `recvCh` is closed and the cleanup of `proxy` runs. -/
  | shutdown (u : StreamUID)
  /-- `dialBackend`. -/
  | dial (u : StreamUID) (random : DialID) (b : BackendId) (network address : String)
  /-- `Close` by the user of a connection that `dialBackend` returned. -/
  | userClose (random : DialID)
  /-- `Close` by the `closeWithBackend` watcher. -/
  | watchClose (random : DialID)
  deriving DecidableEq, Repr

/-- The frontend of a stream served by `proxy`. -/
def proxyFrontend (u : StreamUID) : Frontend := ⟨u, .proxy⟩

/-- Stream UIDs are drawn fresh and are not empty. -/
def ServerState.freshStream (s : ServerState) (u : StreamUID) : Bool :=
  u ≠ "" && !(s.streams u).opened

/-- What happens to the server from outside: the new state, and the goroutine
that starts or, idle so far, has something to do. -/
def arrive (s : ServerState) :
    ServerAction → Option (ServerState × Option (Tid × List Op))
  | .connect b =>
      let x := s.backends b
      if x.connected then none
      else some (s.setBackend b { x with connected := true, registered := true }, none)
  | .deliver b pkt =>
      let x := s.backends b
      if x.connected && !x.draining then
        let s := s.record (.fromBackend b pkt)
        match serveRecvBackend cfg b pkt with
        | none => some (s.crash .nilPayload, some (.dispatcher b, []))
        | some ops => some (s, some (.dispatcher b, ops))
      else none
  | .recvEnd b eof =>
      let x := s.backends b
      if x.connected && !x.stopped then
        some (s.setBackend b { x with stopped := true, receivedEOF := eof }, none)
      else none
  | .drained b =>
      let x := s.backends b
      if x.stopped && !x.draining then
        some (s.setBackend b { x with draining := true },
          some (.dispatcher b,
            [.pendingRemoveForBackend b, .removeEstablishedForBackendConn b, .exitDispatcher b]))
      else none
  | .disconnect b =>
      let x := s.backends b
      if x.connected then some (s.setBackend b { x with registered := false }, none) else none
  | .ctxDone b =>
      let x := s.backends b
      if x.connected then some (s.setBackend b { x with ctxDone := true }, none) else none
  | .openStream u http =>
      if s.freshStream u then some (s.setStream u { opened := true, http := http }, none)
      else none
  | .receive u pkt =>
      let st := s.streams u
      if st.opened && st.loop == .running then
        match st.recv pkt with
        | none => none
        | some st =>
            let s := s.record (.fromFrontend (proxyFrontend u) pkt)
            match serveRecvFrontend (proxyFrontend u) st pkt with
            | none => some (s.crash .nilPayload, some (.proxy u, []))
            | some (st, ops) => some (s.setStream u st, some (.proxy u, ops))
      else none
  | .shutdown u =>
      let st := s.streams u
      if st.opened && (st.loop == .running || st.loop == .discarding) then
        some ((s.setStream u { st with loop := .cleaning }).record (.frontendGone u),
          some (.proxy u,
            [.pendingRemoveForStream u, .removeEstablishedForStream u, .handlerReturn u]))
      else none
  | .dial u random b network address =>
      if s.freshStream u && (s.backends b).connected then
        let f : Frontend := ⟨u, .serverConn random⟩
        let dialProtocol := if network ≠ "" then network else "tcp"
        let pkt := Packet.ofDialRequest ⟨dialProtocol, address, random⟩
        -- No `proxy` serves this frontend; its entry only takes up the UID.
        let s := s.setStream u { opened := true, loop := .returned }
        some ((s.setConn random { backend := b }).record (.dialing f b random),
          some (.dialer random,
            [.pendingAdd random
                { frontend := some f, dialID := random, backend := some b
                  dialAddress := address },
              .sendBackend (some b) pkt (.dialBackend random)]))
      else none
  | .userClose random =>
      if (s.conns random).result = some true then
        some (s, some (.closer random, [.closeOnce random]))
      else none
  | .watchClose random =>
      match (s.conns random).watched with
      | none => none
      | some b =>
          let x := s.backends b
          if x.ctxDone && !x.receivedEOF then
            some (s, some (.watcher random, [.closeOnce random]))
          else none

/-- The server; once it has panicked it makes no step. -/
def server : System ServerState Tid Op ServerAction Choice where
  exec := exec cfg
  arrive := arrive cfg
  halted := fun s => s.panic.isSome

/-- A server that has just started. -/
def newServer : System.State ServerState Tid Op := ⟨{}, fun _ => []⟩

end Konnectivity
