import Konnectivity.Lib.Threads
import Konnectivity.Proto.Packet

/-!
# `serverConn`

The `net.Conn` an in-process dial returns, from the moment the dial succeeded.
Its readers and the receive loop of the agent meet in a bounded buffer under
`sc.mu`. A write hands each packet to a goroutine of its own, which takes the
send lock of the backend and gives the packet to the agent stream; the write
stops waiting for it when the connection is closed or its deadline passes.
`Close` queues a `CLOSE_REQ` behind the same lock.

What `sc.mu` covers is one operation. Who waits at `sc.cond` holds on to its
operation and may try again at any time, which is all that a wake-up is for;
`readTimer` is such a wake-up. The stream of the backend carries the packets
of other connections, too.
-/

namespace Konnectivity.Server.Conn

open Lib

/-- A `time.Time`; only comparisons matter. -/
abbrev Time := Nat

/-- `maxConnDataPacketSize`. -/
def maxConnDataPacketSize : Nat := 32768

inductive ConnError where
  | errClosed
  | deadlineExceeded
  | eof
  /-- The error of a `CLOSE_RSP`. -/
  | closeRsp (msg : String)
  | contextCanceled
  /-- The agent stream failed. -/
  | stream
  deriving DecidableEq, Repr

/-- What `Read` returned. -/
inductive ReadResult where
  | ok (data : Bytes)
  | failed (err : ConnError)
  deriving DecidableEq, Repr

inductive Tid where
  | reader (k : Nat)
  | writer
  /-- Whoever calls `Send` of the connection. -/
  | agent (k : Nat)
  | closer (k : Nat)
  /-- The goroutine `writePacket` starts for its packet. -/
  | packet (i : Nat)
  /-- `sendQueued`. -/
  | queue
  /-- Whoever else sends to the backend. -/
  | other (k : Nat)
  deriving DecidableEq, Repr

inductive Event where
  /-- `handleData` put the payload into the buffer. -/
  | accepted (data : Bytes)
  /-- `handleData` returned an error. -/
  | refused (data : Bytes) (err : ConnError)
  | closedByAgent
  | closedLocally
  /-- What `Read` with a buffer of `n` bytes returned. -/
  | readReturned (n : Nat) (result : ReadResult)
  /-- `writePacket` started the goroutine of its packet. -/
  | sendStarted (i : Nat)
  /-- `stream.Send` was called by the goroutine and returned. -/
  | sent (t : Tid) (pkt : Packet) (ok : Bool)
  /-- `Write` returned a count and an error. -/
  | wrote (b : Bytes) (n : Nat) (err : Option ConnError)
  /-- A `Write` gave up on a packet that is on its way. -/
  | timedOut
  deriving DecidableEq, Repr

/-- The goroutine of one packet of `Write`. -/
structure PacketSend where
  /-- The `cancel` that `writePacket` defers was called. -/
  cancelled : Bool := false
  /-- What is in `errCh`; `some none` is nil. -/
  errCh : Option (Option ConnError) := none
  deriving DecidableEq, Repr

structure ConnState where
  connID : ConnectID
  maxBuffered : Nat
  buffer : List Bytes := []
  rdata : Bytes := []
  closed : Bool := false
  localClosed : Bool := false
  closeErr : Option ConnError := none
  readDeadline : Option Time := none
  writeDeadline : Option Time := none
  /-- Which `writeDeadlineChanged` is in place. -/
  writeDeadlineChanged : Nat := 0
  writeErr : Option ConnError := none
  /-- `sc.ctx` is cancelled. -/
  ctxDone : Bool := false
  /-- `closeOnce` has been entered. -/
  closeOnce : Bool := false
  /-- The server has the connection in `established`. -/
  established : Bool := true
  sends : Nat → PacketSend := fun _ => {}
  /-- The number of goroutines `writePacket` has started. -/
  started : Nat := 0
  sendLock : Option Tid := none
  queued : List Packet := []
  queueSending : Bool := false
  /-- The context of the backend is done. -/
  backendDone : Bool := false
  now : Time := 0
  log : List Event := []

namespace ConnState

variable (s : ConnState)

@[simps]
def record (e : Event) : ConnState := { s with log := e :: s.log }

@[simps]
def setSend (i : Nat) (x : PacketSend) : ConnState :=
  { s with sends := Function.update s.sends i x }

end ConnState

/-- The context of a `SendContext`. -/
inductive SendCtx where
  | packet (i : Nat)
  | backend
  deriving DecidableEq, Repr

/-- Who waits for the result of a `SendContext`. -/
inductive AfterSend where
  | packet (i : Nat)
  | nobody
  deriving DecidableEq, Repr

/-- A `Write` in progress: the buffer and how much of it was written. -/
structure Writing where
  b : Bytes
  n : Nat
  deriving DecidableEq, Repr

/-- `b[n:min(len(b), n+maxConnDataPacketSize)]`. -/
def Writing.chunk (w : Writing) : Bytes := (w.b.drop w.n).take maxConnDataPacketSize

inductive Op where
  | handleData (data : Bytes)
  | removeEstablished
  | handleClose (errMsg : String)
  | read (n : Nat)
  | write (w : Writing)
  | writePacket (w : Writing)
  | startSend (w : Writing)
  | loadDeadline (i : Nat) (w : Writing)
  | select (i : Nat) (deadline : Option Time) (changed : Nat) (w : Writing)
  | setWriteErr (i : Nat) (w : Writing)
  | cancelSend (i : Nat)
  | writeReturn (w : Writing) (err : Option ConnError)
  | sendContext (ctx : SendCtx) (pkt : Packet) (k : AfterSend)
  | lockSend (ctx : SendCtx) (pkt : Packet) (k : AfterSend)
  | sendLocked (ctx : SendCtx) (pkt : Packet) (k : AfterSend)
  | streamSend (pkt : Packet) (k : AfterSend)
  | unlockSend
  | sendDone (k : AfterSend) (err : Option ConnError)
  | close
  | closeLocked
  | cancel
  | closeRemove
  | queueSend (pkt : Packet)
  | sendQueued
  deriving DecidableEq, Repr

/-- The cases of the `select`s of `writePacket` and `lockSend`. -/
inductive Case where
  | proceed
  | ctxDone
  | expired
  | deadlineChanged
  deriving DecidableEq, Repr

structure Choice where
  case : Case := .proceed
  /-- `stream.Send` succeeds. -/
  ok : Bool := true
  /-- The time that passes before each look at the clock. -/
  elapsed : List Nat := []
  deriving DecidableEq, Repr

/-- A deadline that is set and not after `now`. -/
def passed (deadline : Option Time) (now : Time) : Bool :=
  match deadline with
  | none => false
  | some t => t ≤ now

/-- The loop of `Read`; `none` where it waits. -/
def ConnState.readLoop (s : ConnState) (n : Nat) (rdata : Bytes) :
    List Bytes → Time → List Nat → ConnState × Option ReadResult
  | buffer, now, elapsed =>
      let now := now + elapsed.headD 0
      let s' := { s with rdata := rdata, buffer := buffer, now := now }
      if s.localClosed then (s', some (.failed .errClosed))
      else if passed s.readDeadline now then (s', some (.failed .deadlineExceeded))
      else if rdata ≠ [] then ({ s' with rdata := rdata.drop n }, some (.ok (rdata.take n)))
      else
        match buffer with
        | data :: buffer => readLoop s n data buffer now elapsed.tail
        | [] => if s.closed then (s', some (.failed (s.closeErr.getD .eof))) else (s', none)

/-- `ctx.Err() != nil`. -/
def ConnState.ctxErr (s : ConnState) : SendCtx → Bool
  | .packet i => s.ctxDone || (s.sends i).cancelled
  | .backend => s.backendDone

/-- `writePacket` returns: its deferred `cancel`, and what `Write` does then. -/
def packetDone (i : Nat) (w : Writing) (err : Option ConnError) : List Op :=
  match err with
  | none => [.cancelSend i, .write { w with n := w.n + w.chunk.length }]
  | some err => [.cancelSend i, .writeReturn w (some err)]

/-- The `select` of `writePacket`. -/
def ConnState.select (s : ConnState) (i : Nat) (deadline : Option Time) (changed : Nat)
    (w : Writing) : Case → Option (List Op)
  | .proceed =>
      match (s.sends i).errCh with
      | none => none
      | some none => some (packetDone i w none)
      | some (some err) => some (packetDone i w (some (if s.ctxDone then .errClosed else err)))
  | .ctxDone => if s.ctxDone then some (packetDone i w (some .errClosed)) else none
  | .expired => if passed deadline s.now then some [.setWriteErr i w] else none
  | .deadlineChanged =>
      if s.writeDeadlineChanged ≠ changed then some [.loadDeadline i w] else none

/-- The `DATA` packet of a chunk. -/
def ConnState.dataPacket (s : ConnState) (w : Writing) : Packet := .ofData ⟨s.connID, "", w.chunk⟩

@[grind =]
def exec (s : ConnState) (t : Tid) (c : Choice) :
    Op → Option (ConnState × List Op × Option (Tid × List Op))
  | .handleData data =>
      if s.closed then some (s.record (.refused data .errClosed), [], none)
      else if s.buffer.length ≥ s.maxBuffered then some (s, [.handleData data], none)
      else some ({ s with buffer := s.buffer ++ [data] }.record (.accepted data), [], none)
  | .removeEstablished => some ({ s with established := false }, [], none)
  | .handleClose errMsg =>
      if s.closed then some (s, [], none)
      else
        let err := if errMsg ≠ "" then .closeRsp errMsg else .eof
        some ({ s with closed := true, closeErr := some err }.record .closedByAgent, [], none)
  | .read n =>
      match s.readLoop n s.rdata s.buffer s.now c.elapsed with
      | (s', none) => some (s', [.read n], none)
      | (s', some result) => some (s'.record (.readReturned n result), [], none)
  | .write w =>
      if w.n < w.b.length then some (s, [.writePacket w], none)
      else some (s, [.writeReturn w none], none)
  | .writePacket w =>
      if s.closed then some (s, [.writeReturn w (some .errClosed)], none)
      else
        match s.writeErr with
        | some err => some (s, [.writeReturn w (some err)], none)
        | none =>
            if passed s.writeDeadline s.now then
              some (s, [.writeReturn w (some .deadlineExceeded)], none)
            else some (s, [.startSend w], none)
  | .startSend w =>
      let i := s.started
      some ({ s with started := i + 1 }.record (.sendStarted i), [.loadDeadline i w],
        some (.packet i, [.sendContext (.packet i) (s.dataPacket w) (.packet i)]))
  | .loadDeadline i w =>
      some (s, [.select i s.writeDeadline s.writeDeadlineChanged w], none)
  | .select i deadline changed w =>
      (s.select i deadline changed w c.case).map fun ops => (s, ops, none)
  | .setWriteErr i w =>
      let err := s.writeErr.getD .deadlineExceeded
      some ({ s with writeErr := some err }.record .timedOut,
        packetDone i w (some .deadlineExceeded), none)
  | .cancelSend i => some (s.setSend i { s.sends i with cancelled := true }, [], none)
  | .writeReturn w err => some (s.record (.wrote w.b w.n err), [], none)
  | .sendContext ctx pkt k =>
      if s.ctxErr ctx then some (s, [.sendDone k (some .contextCanceled)], none)
      else some (s, [.lockSend ctx pkt k], none)
  | .lockSend ctx pkt k =>
      match c.case with
      | .proceed =>
          if s.sendLock.isSome then none
          else some ({ s with sendLock := some t }, [.sendLocked ctx pkt k], none)
      | .ctxDone =>
          if s.ctxErr ctx then some (s, [.sendDone k (some .contextCanceled)], none) else none
      | _ => none
  | .sendLocked ctx pkt k =>
      if s.ctxErr ctx then
        some (s, [.unlockSend, .sendDone k (some .contextCanceled)], none)
      else some (s, [.streamSend pkt k], none)
  | .streamSend pkt k =>
      some (s.record (.sent t pkt c.ok),
        [.unlockSend, .sendDone k (if c.ok then none else some .stream)], none)
  | .unlockSend => some ({ s with sendLock := none }, [], none)
  | .sendDone k err =>
      match k with
      | .packet i => some (s.setSend i { s.sends i with errCh := some err }, [], none)
      | .nobody => some (s, [], none)
  | .close =>
      if s.closeOnce then some (s, [], none)
      else some ({ s with closeOnce := true }, [.closeLocked], none)
  | .closeLocked =>
      let err := s.closeErr.getD .errClosed
      some ({ s with closed := true, localClosed := true, closeErr := some err }.record
        .closedLocally, [.cancel], none)
  | .cancel =>
      some ({ s with ctxDone := true }, if s.connID = 0 then [] else [.closeRemove], none)
  | .closeRemove =>
      if s.established then
        some ({ s with established := false }, [.queueSend (.newCloseRequest s.connID)], none)
      else some (s, [], none)
  | .queueSend pkt =>
      let s' := { s with queued := s.queued ++ [pkt], queueSending := true }
      some (s', [], if s.queueSending then none else some (.queue, [.sendQueued]))
  | .sendQueued =>
      match s.queued with
      | [] => some ({ s with queueSending := false }, [], none)
      | pkt :: queued =>
          some ({ s with queued := queued }, [.sendContext .backend pkt .nobody, .sendQueued], none)

/-! ## Steps -/

inductive ConnAction where
  /-- A `DATA` packet for the connection. -/
  | data (k : Nat) (data : Bytes)
  /-- A `CLOSE_RSP`, or the end of the agent stream. -/
  | closeRsp (k : Nat) (errMsg : String)
  | read (k : Nat) (n : Nat)
  | write (b : Bytes)
  | close (k : Nat)
  | setReadDeadline (t : Option Time)
  | setWriteDeadline (t : Option Time)
  | tick (d : Nat)
  /-- Somebody else sends a packet to the agent. -/
  | send (k : Nat) (pkt : Packet)
  /-- Somebody else queues one; a `CLOSE_REQ` is queued by its own connection. -/
  | queue (k : Nat) (pkt : Packet)
  /-- The context of the backend ends. -/
  | backendEnd
  deriving DecidableEq, Repr

def arrive (s : ConnState) : ConnAction → Option (ConnState × Option (Tid × List Op))
  | .data k data => some (s, some (.agent k, [.handleData data]))
  | .closeRsp k errMsg => some (s, some (.agent k, [.removeEstablished, .handleClose errMsg]))
  | .read k n => some (s, some (.reader k, [.read n]))
  | .write b => some (s, some (.writer, [.write ⟨b, 0⟩]))
  | .close k => some (s, some (.closer k, [.close]))
  | .setReadDeadline t => some ({ s with readDeadline := t }, none)
  | .setWriteDeadline t =>
      let changed := s.writeDeadlineChanged + 1
      some ({ s with writeDeadline := t, writeDeadlineChanged := changed }, none)
  | .tick d => some ({ s with now := s.now + d }, none)
  | .send k pkt => some (s, some (.other k, [.sendContext .backend pkt .nobody]))
  | .queue k pkt =>
      if pkt = .newCloseRequest s.connID then none else some (s, some (.other k, [.queueSend pkt]))
  | .backendEnd => some ({ s with backendDone := true }, none)

def serverConn : System ConnState Tid Op ConnAction Choice where
  exec := exec
  arrive := arrive
  halted := fun _ => false

/-- The connection `dialBackend` returned. -/
def newServerConn (connID : ConnectID) (frontendWriteChannelSize : Nat) :
    System.State ConnState Tid Op :=
  ⟨{ connID := connID, maxBuffered := max frontendWriteChannelSize 1 }, fun _ => []⟩

end Konnectivity.Server.Conn
