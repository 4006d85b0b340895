import Konnectivity.Lib.GoChan
import Konnectivity.Lib.Threads
import Konnectivity.Proto.Packet

/-!
# The stream of an HTTP-CONNECT frontend

`httpConnectStream` from the successful `DIAL_RSP` on, with what feeds it: the
receive loop of the agent and the dispatcher behind `recvCh`, for the packets
of this one connection. With a queue, `Send` puts the packet into `writeCh`
and the goroutine `serveFrontendWrites` writes to the socket; without one,
`Send` does. `Frontend.sendLock` makes one call of `Send` follow another.

A goroutine is at one operation at a time, which carries what comes after it.
A write to the socket goes on until all is written, an error occurs, or the
socket is closed. `close` runs once, and whoever else calls it waits for it.
-/

namespace Konnectivity.Server.HttpConnect

open Lib

def connectEstablished : Bytes :=
  "HTTP/1.1 200 Connection Established\r\n\r\n".toList.map fun c => UInt8.ofNat c.toNat

/-- The packets of an established connection. -/
inductive FrontendPacket where
  | data (payload : Bytes)
  | closeRsp
  deriving DecidableEq, Repr

inductive Tid where
  /-- `readBackendToChannel`. -/
  | reader
  /-- `serveRecvBackend`. -/
  | dispatch
  /-- `serveFrontendWrites`. -/
  | writer
  /-- The callback of `closeWithBackend`. -/
  | abort
  | closer (k : Nat)
  /-- Whoever else calls `Frontend.Send`. -/
  | other (k : Nat)
  deriving DecidableEq, Repr

inductive Event where
  /-- The packet was put into `recvCh`. -/
  | received (pkt : FrontendPacket)
  /-- `receivedEOF` was set. -/
  | eof
  /-- The context of the backend ended. -/
  | ctxEnded
  /-- The callback of `closeWithBackend` called `Close`. -/
  | aborted
  /-- `Send` was called, and got the lock. -/
  | passed (t : Tid) (pkt : FrontendPacket)
  | accepted (pkt : FrontendPacket)
  /-- `enqueueWrite` returned `net.ErrClosed`. -/
  | refused (pkt : FrontendPacket)
  /-- These bytes went to the socket. -/
  | wrote (b : Bytes)
  /-- `conn.Write` returned an error; whether the socket was closed. -/
  | writeFailed (closed : Bool)
  | dequeued (pkt : FrontendPacket)
  /-- `Close` was called, or `release`. -/
  | closeCalled
  /-- The handler of the frontend removed the connection from `established`. -/
  | frontendGone
  /-- `conn.Close` was called. -/
  | socketClosed
  deriving DecidableEq, Repr

structure StreamState where
  queueSize : Nat
  writeCh : GoChan FrontendPacket
  connected : Bool := false
  closed : Bool := false
  /-- `closeOnce` has been entered, and left. -/
  onceEntered : Bool := false
  onceDone : Bool := false
  socketClosed : Bool := false
  writerDone : Bool := false
  /-- The context of the stream is cancelled. -/
  streamDone : Bool := false
  /-- The `sendLock` of the frontend. -/
  sendLock : Option Tid := none
  /-- The connection is in `established`. -/
  established : Bool := true
  recvCh : GoChan FrontendPacket
  /-- `Recv` has returned an error. -/
  recvEnded : Bool := false
  receivedEOF : Bool := false
  /-- The context of the backend is done. -/
  backendDone : Bool := false
  /-- The callback of `closeWithBackend` was stopped. -/
  watcherStopped : Bool := false
  log : List Event := []
  panic : Option ChanPanic := none

namespace StreamState

variable (s : StreamState)

@[simps]
def record (e : Event) : StreamState := { s with log := e :: s.log }

/-- `writeCh` has room. -/
def room : Bool := s.writeCh.buf.length < s.writeCh.cap

end StreamState

/-- What follows a `Send`. -/
inductive AfterSend where
  | nobody
  | dispatch
  | removeEstablished
  /-- The dispatcher is done. -/
  | exited
  deriving DecidableEq, Repr

/-- Who writes to the socket. -/
inductive WriteCaller where
  | handshake
  | sync (k : AfterSend)
  | queued
  deriving DecidableEq, Repr

/-- Who calls `close`. -/
inductive CloseCaller where
  | nobody
  | writer
  | send (k : AfterSend)
  | handshake
  deriving DecidableEq, Repr

inductive Op where
  | recvChSend (pkt : FrontendPacket)
  | storeEOF
  | closeRecvCh
  | dispatch
  | route (pkt : FrontendPacket)
  | dispatchExit
  | sendDialResponse
  | startWriter
  | closeConnected
  | removeEstablished
  | send (pkt : FrontendPacket) (k : AfterSend)
  | streamSend (pkt : FrontendPacket) (k : AfterSend)
  | enqueueWrite (pkt : FrontendPacket) (k : AfterSend)
  | tryEnqueue (pkt : FrontendPacket) (k : AfterSend)
  | blockedEnqueue (pkt : FrontendPacket) (k : AfterSend)
  | unlock (k : AfterSend)
  | connWrite (b : Bytes) (caller : WriteCaller)
  | writerLoop
  | writerSelect
  | closeWriterDone
  | close (caller : CloseCaller)
  | closeClosed (caller : CloseCaller)
  | connClose (caller : CloseCaller)
  | cancel (caller : CloseCaller)
  | onceDone (caller : CloseCaller)
  | afterFunc
  deriving DecidableEq, Repr

/-- The cases of a `select`. -/
inductive Case where
  | proceed
  | closed
  | default
  deriving DecidableEq, Repr

structure Choice where
  case : Case := .proceed
  /-- How much the socket takes; `none` is an error. -/
  write : Option Nat := some 0
  deriving DecidableEq, Repr

def WriteCaller.failed : WriteCaller → List Op
  | .handshake => [.close .handshake]
  | .sync k => [.unlock k]
  | .queued => [.close .writer]

def WriteCaller.finished : WriteCaller → List Op
  | .handshake => [.startWriter]
  | .sync k => [.unlock k]
  | .queued => [.writerLoop]

def CloseCaller.returned : CloseCaller → List Op
  | .nobody => []
  | .writer => [.closeWriterDone]
  | .send k => [.unlock k]
  | .handshake => [.unlock .removeEstablished]

def AfterSend.returned : AfterSend → List Op
  | .nobody | .exited => []
  | .dispatch => [.dispatch]
  | .removeEstablished => [.removeEstablished]

/-- The cases of `enqueueWrite` that end it. -/
def StreamState.enqueue (s : StreamState) (pkt : FrontendPacket) : Case → Option StreamState
  | .proceed =>
      if s.room then
        let writeCh := { s.writeCh with buf := s.writeCh.buf ++ [pkt] }
        some ({ s with writeCh := writeCh }.record (.accepted pkt))
      else none
  | .closed => if s.closed then some (s.record (.refused pkt)) else none
  | .default => none

def exec (s : StreamState) (t : Tid) (c : Choice) :
    Op → Option (StreamState × List Op × Option (Tid × List Op))
  | .recvChSend pkt =>
      match s.recvCh.send pkt with
      | none => none
      | some (.error reason) => some ({ s with panic := some reason }, [], none)
      | some (.ok ch) => some ({ s with recvCh := ch }.record (.received pkt), [], none)
  | .storeEOF => some ({ s with receivedEOF := true }.record .eof, [.closeRecvCh], none)
  | .closeRecvCh =>
      match s.recvCh.close with
      | .error reason => some ({ s with panic := some reason }, [], none)
      | .ok ch => some ({ s with recvCh := ch }, [], none)
  | .dispatch =>
      match s.recvCh.recv with
      | none => none
      | some (none, _) => some (s, [.dispatchExit], none)
      | some (some pkt, ch) => some ({ s with recvCh := ch }, [.route pkt], none)
  | .route pkt =>
      if s.established then
        match pkt with
        | .data b => some (s, [.send (.data b) .dispatch], none)
        | .closeRsp => some ({ s with established := false }, [.send .closeRsp .dispatch], none)
      else some (s, [.dispatch], none)
  | .dispatchExit =>
      if s.established then
        some ({ s with established := false }, [.send .closeRsp .exited], none)
      else some (s, [], none)
  | .sendDialResponse =>
      if s.sendLock.isSome then none
      else
        some ({ s with sendLock := some t }, [.connWrite connectEstablished .handshake], none)
  | .startWriter =>
      some (s, [.closeConnected], if 0 < s.queueSize then some (.writer, [.writerLoop]) else none)
  | .closeConnected => some ({ s with connected := true }, [.unlock .dispatch], none)
  | .removeEstablished => some ({ s with established := false }, [.dispatch], none)
  | .send pkt k =>
      if s.sendLock.isSome then none
      else some ({ s with sendLock := some t }.record (.passed t pkt), [.streamSend pkt k], none)
  | .streamSend pkt k =>
      match pkt with
      | .data b =>
          if s.queueSize = 0 then some (s, [.connWrite b (.sync k)], none)
          else some (s, [.enqueueWrite (.data b) k], none)
      | .closeRsp =>
          if 0 < s.queueSize ∧ s.connected = true then some (s, [.enqueueWrite .closeRsp k], none)
          else some (s, [.close (.send k)], none)
  | .enqueueWrite pkt k =>
      if s.closed then some (s.record (.refused pkt), [.unlock k], none)
      else some (s, [.tryEnqueue pkt k], none)
  | .tryEnqueue pkt k =>
      match c.case with
      | .default =>
          if s.room ∨ s.closed = true then none else some (s, [.blockedEnqueue pkt k], none)
      | case => (s.enqueue pkt case).map fun s' => (s', [.unlock k], none)
  | .blockedEnqueue pkt k => (s.enqueue pkt c.case).map fun s' => (s', [.unlock k], none)
  | .unlock k => some ({ s with sendLock := none }, k.returned, none)
  | .connWrite b caller =>
      if s.socketClosed then some (s.record (.writeFailed true), caller.failed, none)
      else
        match c.write with
        | none => some (s.record (.writeFailed false), caller.failed, none)
        | some n =>
            if b.length ≤ n then some (s.record (.wrote b), caller.finished, none)
            else some (s.record (.wrote (b.take n)), [.connWrite (b.drop n) caller], none)
  | .writerLoop => some (s, if s.closed then [.close .writer] else [.writerSelect], none)
  | .writerSelect =>
      match c.case, s.writeCh.buf with
      | .proceed, .data b :: buf =>
          some ({ s with writeCh := { s.writeCh with buf := buf } }.record (.dequeued (.data b)),
            [.connWrite b .queued], none)
      | .proceed, .closeRsp :: buf =>
          some ({ s with writeCh := { s.writeCh with buf := buf } }.record (.dequeued .closeRsp),
            [.close .writer], none)
      | .closed, _ => if s.closed then some (s, [.close .writer], none) else none
      | _, _ => none
  | .closeWriterDone => some ({ s with writerDone := true }, [], none)
  | .close caller =>
      if s.onceDone then some (s, caller.returned, none)
      else if s.onceEntered then none
      else some ({ s with onceEntered := true }, [.closeClosed caller], none)
  | .closeClosed caller => some ({ s with closed := true }, [.connClose caller], none)
  | .connClose caller =>
      some ({ s with socketClosed := true }.record .socketClosed, [.cancel caller], none)
  | .cancel caller => some ({ s with streamDone := true }, [.onceDone caller], none)
  | .onceDone caller => some ({ s with onceDone := true }, caller.returned, none)
  | .afterFunc =>
      if s.receivedEOF then some (s, [], none)
      else some (s.record .aborted, [.close .nobody], none)

/-! ## Steps -/

inductive StreamAction where
  /-- The agent stream yields a packet of the connection. -/
  | agentPacket (pkt : FrontendPacket)
  | agentEOF
  /-- Another error of the agent stream. -/
  | agentErr
  /-- The context of the backend ends. -/
  | ctxEnd
  /-- The callback on the context of the stream runs `stop`. -/
  | stopWatcher
  | close (k : Nat)
  /-- The handler of the frontend ends. -/
  | frontendGone
  /-- Somebody else calls `Send`. -/
  | send (k : Nat) (pkt : FrontendPacket)
  deriving DecidableEq, Repr

def arrive (s : StreamState) : StreamAction → Option (StreamState × Option (Tid × List Op))
  | .agentPacket pkt =>
      if s.recvEnded then none else some (s, some (.reader, [.recvChSend pkt]))
  | .agentEOF =>
      if s.recvEnded then none
      else some ({ s with recvEnded := true }, some (.reader, [.storeEOF]))
  | .agentErr =>
      if s.recvEnded then none
      else some ({ s with recvEnded := true }, some (.reader, [.closeRecvCh]))
  | .ctxEnd =>
      if s.backendDone then none
      else
        some ({ s with backendDone := true }.record .ctxEnded,
          if s.watcherStopped then none else some (.abort, [.afterFunc]))
  | .stopWatcher => if s.streamDone then some ({ s with watcherStopped := true }, none) else none
  | .close k => some (s.record .closeCalled, some (.closer k, [.close .nobody]))
  | .frontendGone => some ({ s with established := false }.record .frontendGone, none)
  | .send k pkt => if s.connected then some (s, some (.other k, [.send pkt .nobody])) else none

def httpConnectStream : System StreamState Tid Op StreamAction Choice where
  exec := exec
  arrive := arrive
  halted := fun s => s.panic.isSome

/-- A stream that is about to get its `DIAL_RSP`. -/
def newHTTPConnectStream (queueSize xfrChannelSize : Nat) : System.State StreamState Tid Op :=
  ⟨{ queueSize := queueSize, writeCh := ⟨queueSize, [], false⟩,
     recvCh := ⟨xfrChannelSize, [], false⟩ },
    fun t => if t = .dispatch then [.sendDialResponse] else []⟩

end Konnectivity.Server.HttpConnect
