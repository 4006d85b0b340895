import Konnectivity.Server.Tables

/-!
# What the goroutines of the server still have to do

A goroutine of the proxy server is the list of operations it has yet to
perform. One operation is one thing other goroutines can come in between: a
critical section on one of the tables, one `Send` on a stream, one wait.
Where the code branches on what an operation returned, the operation carries
the name of the code path it belongs to (`AfterRemove` and its siblings), and
the path says what is pushed in front of the rest of the list.

Everything that is decided elsewhere (whether a `Send` succeeds, which
backend the managers choose, the order in which a map is ranged over, which
ready case a `select` takes) is in the `Choice` the scheduler passes along.
-/

namespace Konnectivity

/-- The goroutines: the dispatcher of an agent stream, the handler of a
frontend stream, the timer of a dial, the caller of `dialBackend`, and the
callers of `serverConn.Close`: the user and the `closeWithBackend` watcher. -/
inductive Tid where
  | dispatcher (b : BackendId)
  | proxy (u : StreamUID)
  | timer (r : DialID)
  | dialer (r : DialID)
  | closer (r : DialID)
  | watcher (r : DialID)
  deriving DecidableEq, Repr

/-- The goroutine that dials for a frontend. -/
def Frontend.tid (f : Frontend) : Tid :=
  match f.stream with
  | .proxy => .proxy f.streamUID
  | .serverConn r => .dialer r

/-- The goroutines that may close the connection of an in-process dial. -/
def Tid.closes (t : Tid) (r : DialID) : Prop :=
  t = .dialer r ∨ t = .closer r ∨ t = .watcher r

/-- Who called `PendingDial.Remove`. -/
inductive AfterRemove where
  /-- `serveRecvBackend`, `DIAL_RSP`. -/
  | dialRsp (b : BackendId) (resp : DialResponse) (pkt : Packet)
  /-- `serveRecvBackend`, `DIAL_CLS`. -/
  | dialCls (pkt : Packet)
  /-- `serveRecvFrontend`, after the `DIAL_REQ` could not be sent. -/
  | sendFailed (f : Frontend) (err : String)
  /-- `serveRecvFrontend`, `DIAL_CLS`. -/
  | cancel
  /-- `startPendingDialTimeout`. -/
  | timeout (f : Frontend)
  /-- `failDial` of `dialBackend`. -/
  | failDial (b : BackendId) (tellAgent : Bool)
  /-- `serverConn.Close` of a connection without an ID. -/
  | closeConn
  deriving DecidableEq, Repr

/-- Who called `removeEstablished`. -/
inductive AfterEstablished where
  /-- `serveRecvBackend`, after a `DIAL_RSP` could not be handed over. -/
  | undo (b : BackendId) (random : DialID)
  /-- `serveRecvBackend`, `CLOSE_RSP`. -/
  | closeRsp (pkt : Packet)
  /-- `serverConn.Close`. -/
  | closeConn (b : BackendId) (random : DialID)
  deriving DecidableEq, Repr

/-- What depends on the result of a `Send` to a frontend. -/
inductive AfterFrontend where
  | done
  /-- The successful `DIAL_RSP` of `serveRecvBackend`. -/
  | dialRsp (b : BackendId) (resp : DialResponse)
  deriving DecidableEq, Repr

/-- What depends on the result of a `Send` to a backend. -/
inductive AfterBackend where
  | done
  /-- `serveRecvFrontend`, `DIAL_REQ`. -/
  | dialReq (f : Frontend) (random : DialID)
  /-- `serveRecvFrontend`, `CLOSE_REQ`. -/
  | closeReq (f : Frontend) (connID : ConnectID)
  /-- `dialBackend`. -/
  | dialBackend (random : DialID)
  deriving DecidableEq, Repr

inductive Op where
  | pendingAdd (random : DialID) (p : ProxyClientConnection)
  | pendingRemove (random : DialID) (k : AfterRemove)
  | pendingRemoveForBackend (b : BackendId)
  | pendingRemoveForStream (u : StreamUID)
  | addEstablished (b : BackendId) (connID : ConnectID) (p : ProxyClientConnection)
  | closeWithBackend (f : Option Frontend) (b : BackendId)
  | removeEstablished (agentID : AgentID) (connID : ConnectID) (k : AfterEstablished)
  | getFrontend (b : BackendId) (connID : ConnectID) (pkt : Packet)
  | removeEstablishedForBackendConn (b : BackendId)
  | removeEstablishedForStream (u : StreamUID)
  | sendFrontend (f : Option Frontend) (pkt : Packet) (k : AfterFrontend)
  | sendBackend (b : Option BackendId) (pkt : Packet) (k : AfterBackend)
  | queueSend (b : BackendId) (pkt : Packet)
  | observeClosed (n : Nat)
  | exitDispatcher (b : BackendId)
  | selectBackend (f : Frontend) (req : DialRequest) (pkt : Packet)
  | startPendingDialTimeout (random : DialID) (b : BackendId) (f : Frontend)
  | waitTimer (random : DialID) (b : BackendId) (f : Frontend)
  | returnLoop (u : StreamUID)
  | handlerReturn (u : StreamUID)
  | awaitDial (random : DialID)
  | closeOnce (random : DialID)
  | closeMark (random : DialID)
  | closeFinish (random : DialID)
  | dialReturn (random : DialID) (ok : Bool)
  deriving DecidableEq, Repr

/-- The cases of the `select` in `dialBackend`. -/
inductive DialCase where
  | connected
  | dialErr
  | backendDone
  | timeout
  | cancelled
  deriving DecidableEq, Repr

structure Choice where
  ok : Bool := true
  err : String := ""
  backend : Option BackendId := none
  order : List ProxyClientConnection := []
  case : DialCase := .connected
  /-- Whether the timer goroutine saw its timer expire, not its context end. -/
  expired : Bool := true
  deriving DecidableEq, Repr

def errBackendDialTimeout : String := "timed out waiting for backend dial"

def errBackendClosedWhileDialing : String := "backend connection closed while dialing"

/-! ## The packets a handler sends -/

/-- `sendFrontendClose`. -/
def sendFrontendClose (f : Frontend) (connID : ConnectID) (reason : String) : Op :=
  .sendFrontend (some f) (.ofCloseResponse ⟨reason, connID⟩) .done

/-- `sendBackendClose`. -/
def sendBackendClose (b : Option BackendId) (connID : ConnectID) : Op :=
  .sendBackend b (.newCloseRequest connID) .done

/-- `sendBackendDialClose`. -/
def sendBackendDialClose (b : Option BackendId) (random : DialID) : Op :=
  .sendBackend b (.newDialClose random) .done

/-! ## Continuations -/

/-- After `PendingDial.Remove`. -/
def AfterRemove.next (agentID : BackendId → AgentID) (random : DialID) :
    AfterRemove → Option ProxyClientConnection → List Op
  | .dialRsp b resp _, none =>
      if resp.connectID ≠ 0 then [sendBackendClose (some b) resp.connectID] else []
  | .dialRsp b resp pkt, some p =>
      if resp.error ≠ "" then [.sendFrontend p.frontend pkt .done]
      else
        let p := { p with connectID := resp.connectID, agentID := agentID b }
        [.addEstablished b resp.connectID p, .closeWithBackend p.frontend b,
          .sendFrontend p.frontend pkt (.dialRsp b resp)]
  | .dialCls _, none => []
  | .dialCls pkt, some p => [.sendFrontend p.frontend pkt .done]
  | .sendFailed _ _, none => []
  | .sendFailed f err, some _ =>
      [.sendFrontend (some f) (.newDialFailure random err) .done, .returnLoop f.streamUID]
  | .cancel, _ => []
  | .timeout _, none => []
  | .timeout f, some _ =>
      [.sendFrontend (some f) (.newDialFailure random errBackendDialTimeout) .done]
  | .failDial _ _, none => []
  | .failDial b tellAgent, some _ =>
      if tellAgent then [.queueSend b (.newDialClose random)] else []
  | .closeConn, _ => []

/-- After `removeEstablished`. -/
def AfterEstablished.next (connID : ConnectID) :
    AfterEstablished → Option ProxyClientConnection → List Op
  | .undo b _, none => [sendBackendClose (some b) connID]
  | .undo b _, some _ => [.observeClosed 1, sendBackendClose (some b) connID]
  | .closeRsp _, none => []
  | .closeRsp pkt, some p => [.observeClosed 1, .sendFrontend p.frontend pkt .done]
  | .closeConn _ _, none => []
  | .closeConn b _, some _ => [.observeClosed 1, .queueSend b (.newCloseRequest connID)]

/-- After a `Send` to a frontend. -/
def AfterFrontend.next (agentID : BackendId → AgentID) : AfterFrontend → Bool → List Op
  | .done, _ => []
  | .dialRsp _ _, true => []
  | .dialRsp b resp, false =>
      [.removeEstablished (agentID b) resp.connectID (.undo b resp.random)]

/-- After a `Send` to a backend. -/
def AfterBackend.next (b : BackendId) (err : String) : AfterBackend → Bool → List Op
  | .done, _ => []
  | .dialReq f random, true => [.startPendingDialTimeout random b f]
  | .dialReq f random, false => [.pendingRemove random (.sendFailed f err)]
  | .closeReq f _, true => [.returnLoop f.streamUID]
  | .closeReq f connID, false =>
      [sendFrontendClose f connID "CLOSE_REQ to backend failed", .returnLoop f.streamUID]
  | .dialBackend random, true => [.awaitDial random]
  | .dialBackend random, false =>
      [.pendingRemove random (.failDial b false), .closeOnce random, .dialReturn random false]

/-- The `select` of `dialBackend`, with the deferred `Close` of a failed dial. -/
def DialCase.next (b : BackendId) (random : DialID) : DialCase → List Op
  | .connected => [.dialReturn random true]
  | .dialErr => [.closeOnce random, .dialReturn random false]
  | .backendDone =>
      [.pendingRemove random (.failDial b false), .closeOnce random, .dialReturn random false]
  | .timeout =>
      [.pendingRemove random (.failDial b true), .closeOnce random, .dialReturn random false]
  | .cancelled =>
      [.pendingRemove random (.failDial b true), .closeOnce random, .dialReturn random false]

end Konnectivity
