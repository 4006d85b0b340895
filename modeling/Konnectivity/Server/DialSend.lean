import Konnectivity.Lib.Threads
import Konnectivity.Proto.Packet

/-!
# Sending a `DIAL_REQ`

`sendDialRequestToBackend` and what it runs into on one backend: the send lock
(a channel with room for one), the sends of other goroutines, and the queue.
The send itself is done by a goroutine of its own, so that the caller can give
up while the transport blocks; the two meet in `errCh` and in the send context.

A context is what its `Err` returns. A context ends at an event from outside;
the send context of a dial is derived from the backend's and ends for one of
the reasons in `Cause`, whichever comes first. That the end of the backend's
context reaches a context derived from it, and that `AfterFunc` runs its
function, are events too, some time after the one they follow from.

A call of `SendContext` writes down what became of it (`CallLog`); nothing
reads that.
-/

namespace Konnectivity

open Lib

namespace DialSend

/-! ## Errors and contexts -/

inductive CtxErr where
  | canceled
  | deadlineExceeded
  deriving DecidableEq, Repr

/-- An error of the stream's own `Send`, and whether it is or wraps
`context.DeadlineExceeded`. -/
structure StreamErr where
  text : String
  isDeadline : Bool := false
  deriving DecidableEq, Repr

inductive Err where
  | ctx (e : CtxErr)
  | stream (e : StreamErr)
  /-- `errBackendDialTimeout`. -/
  | backendDialTimeout
  deriving DecidableEq, Repr

/-- `errors.Is(err, context.DeadlineExceeded)`. -/
def isDeadlineExceeded : Option Err → Bool
  | some (.ctx .deadlineExceeded) => true
  | some (.stream e) => e.isDeadline
  | _ => false

/-- `if errors.Is(err, context.DeadlineExceeded) { err = errBackendDialTimeout }`. -/
def dialTimeout (err : Option Err) : Option Err :=
  if isDeadlineExceeded err then some .backendDialTimeout else err

/-- Why a send context is done. -/
inductive Cause where
  /-- Its own deadline, the dial timeout, passed. -/
  | dialDeadline
  /-- The backend's context was done. -/
  | backend (e : CtxErr)
  /-- The caller's context was done, and `AfterFunc` called `cancel`. -/
  | caller
  /-- `cancel` was called on return. -/
  | returned
  deriving DecidableEq, Repr

def Cause.err : Cause → CtxErr
  | .dialDeadline => .deadlineExceeded
  | .backend e => e
  | .caller => .canceled
  | .returned => .canceled

/-- The contexts that `SendContext` is called with. -/
inductive Ctx where
  | backend
  | dial (i : Nat)
  | other (n : Nat)
  deriving DecidableEq, Repr

/-! ## State -/

/-- A call of `SendContext`: that of a dial, or one of the others in the order
they are made. -/
inductive CallId where
  | dial (i : Nat)
  | plain (n : Nat)
  deriving DecidableEq, Repr

structure Call where
  id : CallId
  ctx : Ctx
  packet : Packet
  deriving DecidableEq, Repr

structure CallLog where
  /-- The `Err` of its context each time it obtained the lock. -/
  locked : List (Option CtxErr) := []
  /-- The packets handed to the stream. -/
  handed : List Packet := []
  /-- How the stream's `Send` ended. -/
  ended : List (Option StreamErr) := []
  deriving DecidableEq, Repr

/-- What `sendDialRequestToBackend` returned, and the `Err` of the caller's
context when it was checked last. -/
structure Return where
  err : Option Err
  callerErr : Option CtxErr
  deriving DecidableEq, Repr

/-- One call of `sendDialRequestToBackend`. -/
structure Dial where
  packet : Packet
  /-- `ctx.Done() != nil`. -/
  hasDone : Bool
  callerErr : Option CtxErr := none
  /-- The send context exists. -/
  derived : Bool := false
  /-- `AfterFunc` has been called. -/
  registered : Bool := false
  cause : Option Cause := none
  /-- The value in `errCh`, which has room for one. -/
  errCh : Option (Option Err) := none
  returned : Option Return := none
  deriving DecidableEq, Repr

structure Backend where
  sendLock : Bool := false
  err : Option CtxErr := none
  otherErr : Nat → Option CtxErr := fun _ => none
  dials : Nat → Option Dial := fun _ => none
  queueMu : Bool := false
  queued : List Packet := []
  queueSending : Bool := false
  /-- The `sendQueued` goroutines started so far. -/
  started : Nat := 0
  /-- The calls of `SendContext` that are not a dial's. -/
  plain : Nat := 0
  /-- The sends that are in progress on the stream. -/
  sending : List CallId := []
  calls : CallId → CallLog := fun _ => {}

/-- `ctx.Err()`. -/
def Backend.ctxErr (b : Backend) : Ctx → Option CtxErr
  | .backend => b.err
  | .dial i => ((b.dials i).bind (·.cause)).map Cause.err
  | .other n => b.otherErr n

def Backend.addDial (b : Backend) (i : Nat) (d : Dial) : Backend :=
  { b with dials := Function.update b.dials i (some d) }

def Backend.setDial (b : Backend) (i : Nat) (f : Dial → Dial) : Backend :=
  { b with dials := Function.update b.dials i ((b.dials i).map f) }

def Backend.setCall (b : Backend) (id : CallId) (f : CallLog → CallLog) : Backend :=
  { b with calls := Function.update b.calls id (f (b.calls id)) }

/-- A context is done once, and for good. -/
def Dial.endCtx (d : Dial) (c : Cause) : Dial := { d with cause := some (d.cause.getD c) }

/-! ## Operations -/

inductive Tid where
  /-- The caller of `sendDialRequestToBackend`. -/
  | caller (i : Nat)
  /-- The goroutine it starts. -/
  | sender (i : Nat)
  /-- A `sendQueued` goroutine. -/
  | queue (n : Nat)
  | other (n : Nat)
  deriving DecidableEq, Repr

inductive Op where
  /-- The statements of `sendDialRequestToBackend`, and
  `resolveDialSendOnContextDone`. -/
  | start (i : Nat)
  | newSendCtx (i : Nat)
  | afterFunc (i : Nat)
  | goSend (i : Nat)
  | select (i : Nat)
  | resolve (i : Nat)
  | finish (i : Nat) (err : Option Err)
  /-- `SendContext`: the first check, `lockSend`, the second check, the two
  ends of the stream's `Send`, the deferred `unlockSend`, and the return. -/
  | check (c : Call)
  | lockSend (c : Call)
  | recheck (c : Call)
  | streamSend (c : Call)
  | streamSent (c : Call)
  | unlockSend (c : Call) (err : Option Err)
  | ret (c : Call) (err : Option Err)
  /-- `SendContext` is called by another goroutine. -/
  | sendContext (ctx : Ctx) (p : Packet)
  | queueLock
  | queueAppend (p : Packet)
  | queuePop
  deriving DecidableEq, Repr

/-- What the scheduler and the stream choose: which ready case of a `select`
fires, and how the stream's `Send` ends. -/
structure Pick where
  done : Bool := false
  sent : Option StreamErr := none
  deriving DecidableEq, Repr

def sendQueued : List Op := [.queueLock, .queuePop]

abbrev Next := Option (Backend × List Op × Option (Tid × List Op))

/-- The operations of `sendDialRequestToBackend` and
`resolveDialSendOnContextDone`. -/
def execDial (timeout : Int) (b : Backend) (pick : Pick) (i : Nat) (d : Dial) : Op → Next
  | .start _ =>
      if timeout ≤ 0 ∧ d.hasDone = false then
        some (b, [.check ⟨.dial i, .backend, d.packet⟩], none)
      else some (b, [.newSendCtx i], none)
  | .newSendCtx _ =>
      some (b.setDial i fun d => { d with derived := true, cause := b.err.map .backend },
        [.afterFunc i], none)
  | .afterFunc _ => some (b.setDial i fun d => { d with registered := true }, [.goSend i], none)
  | .goSend _ =>
      some (b, [.select i], some (.sender i, [.check ⟨.dial i, .dial i, d.packet⟩]))
  | .select _ =>
      if pick.done then d.cause.map fun _ => (b, [.resolve i], none)
      else
        d.errCh.map fun err =>
          (b.setDial i fun d => { d with errCh := none }, [.finish i (dialTimeout err)], none)
  | .resolve _ =>
      match d.errCh with
      | some err =>
          some (b.setDial i fun d => { d with errCh := none }, [.finish i (dialTimeout err)], none)
      | none => d.cause.map fun c => (b, [.finish i (dialTimeout (some (.ctx c.err)))], none)
  | .finish _ err =>
      let err' := if err.isSome ∧ d.callerErr.isSome then d.callerErr.map .ctx else err
      -- the deferred calls: stop, then cancel
      some (b.setDial i fun d =>
        { d.endCtx .returned with returned := some ⟨err', d.callerErr⟩, registered := false },
        [], none)
  | _ => none

/-- `SendContext` returns: to the goroutine of a dial, which puts the error
into `errCh`; to a dial that called it without a send context, which returns
it; or to somebody else. -/
def execRet (b : Backend) (c : Call) (err : Option Err) : Next :=
  match c.id, c.ctx with
  | .dial i, .dial _ =>
      (b.dials i).bind fun d =>
        if d.errCh.isSome then none
        else some (b.setDial i fun d => { d with errCh := some err }, [], none)
  | .dial i, _ =>
      some (b.setDial i fun d => { d with returned := some ⟨err, d.callerErr⟩ }, [], none)
  | .plain _, _ => some (b, [], none)

/-- The operations of `SendContext`. -/
def execSend (b : Backend) (pick : Pick) (c : Call) : Op → Next
  | .check _ =>
      match b.ctxErr c.ctx with
      | some e => some (b, [.ret c (some (.ctx e))], none)
      | none => some (b, [.lockSend c], none)
  | .lockSend _ =>
      if pick.done then
        (b.ctxErr c.ctx).map fun e => (b, [.ret c (some (.ctx e))], none)
      else if b.sendLock then none
      else
        some ({ b with sendLock := true }.setCall c.id fun l =>
          { l with locked := l.locked ++ [b.ctxErr c.ctx] }, [.recheck c], none)
  | .recheck _ =>
      match b.ctxErr c.ctx with
      | some e => some (b, [.unlockSend c (some (.ctx e))], none)
      | none => some (b, [.streamSend c], none)
  | .streamSend _ =>
      some ({ b with sending := c.id :: b.sending }.setCall c.id fun l =>
        { l with handed := l.handed ++ [c.packet] }, [.streamSent c], none)
  | .streamSent _ =>
      some ({ b with sending := b.sending.erase c.id }.setCall c.id fun l =>
        { l with ended := l.ended ++ [pick.sent] },
        [.unlockSend c (pick.sent.map .stream)], none)
  | .unlockSend _ err =>
      if b.sendLock then some ({ b with sendLock := false }, [.ret c err], none) else none
  | .ret _ err => execRet b c err
  | _ => none

/-- The operations of `queueSend` and `sendQueued`, and a plain call of
`SendContext`. -/
def execQueue (b : Backend) : Op → Next
  | .sendContext ctx p =>
      some ({ b with plain := b.plain + 1 }, [.check ⟨.plain b.plain, ctx, p⟩], none)
  | .queueLock => if b.queueMu then none else some ({ b with queueMu := true }, [], none)
  | .queueAppend p =>
      let b := { b with queueMu := false, queued := b.queued ++ [p] }
      if b.queueSending then some (b, [], none)
      else
        some ({ b with queueSending := true, started := b.started + 1 }, [],
          some (.queue b.started, sendQueued))
  | .queuePop =>
      match b.queued with
      | [] => some ({ b with queueMu := false, queueSending := false }, [], none)
      | p :: queued =>
          some ({ b with queueMu := false, queued := queued },
            .sendContext .backend p :: sendQueued, none)
  | _ => none

/-- The dial an operation of `sendDialRequestToBackend` belongs to. -/
def Op.dial? : Op → Option Nat
  | .start i => some i
  | .newSendCtx i => some i
  | .afterFunc i => some i
  | .goSend i => some i
  | .select i => some i
  | .resolve i => some i
  | .finish i _ => some i
  | _ => none

/-- The call an operation of `SendContext` belongs to. -/
def Op.call? : Op → Option Call
  | .check c => some c
  | .lockSend c => some c
  | .recheck c => some c
  | .streamSend c => some c
  | .streamSent c => some c
  | .unlockSend c _ => some c
  | .ret c _ => some c
  | _ => none

def exec (timeout : Int) (b : Backend) (_ : Tid) (pick : Pick) (o : Op) : Next :=
  match o.dial?, o.call? with
  | some i, _ => (b.dials i).bind fun d => execDial timeout b pick i d o
  | none, some c => execSend b pick c o
  | none, none => execQueue b o

/-! ## Events -/

inductive Event where
  /-- `sendDialRequestToBackend` is called, with a context that can be done or
  cannot. -/
  | dial (i : Nat) (p : Packet) (hasDone : Bool)
  /-- `SendContext` or `Send` is called by another goroutine. -/
  | send (n : Nat) (ctx : Ctx) (p : Packet)
  | queueSend (n : Nat) (p : Packet)
  | callerDone (i : Nat) (e : CtxErr)
  | otherDone (n : Nat) (e : CtxErr)
  | backendDone (e : CtxErr)
  /-- The end of the backend's context reaches the send context. -/
  | propagate (i : Nat)
  /-- The dial timeout expires. -/
  | expire (i : Nat)
  /-- `AfterFunc` calls `cancel`. -/
  | cancel (i : Nat)
  deriving DecidableEq, Repr

/-- The send context of a dial ends, unless it has ended before. -/
def endDial (b : Backend) (i : Nat) (c : Cause) : Option (Backend × Option (Tid × List Op)) :=
  some (b.setDial i fun d => d.endCtx c, none)

def arrive (timeout : Int) (b : Backend) : Event → Option (Backend × Option (Tid × List Op))
  | .dial i p hasDone =>
      if (b.dials i).isSome then none
      else
        some (b.addDial i { packet := p, hasDone := hasDone }, some (.caller i, [.start i]))
  | .send n ctx p =>
      match ctx with
      | .dial _ => none
      | _ => some (b, some (.other n, [.sendContext ctx p]))
  | .queueSend n p => some (b, some (.other n, [.queueLock, .queueAppend p]))
  | .callerDone i e =>
      match b.dials i with
      | some d =>
          if d.hasDone then
            some (b.setDial i fun d => { d with callerErr := some (d.callerErr.getD e) }, none)
          else none
      | none => none
  | .otherDone n e =>
      some ({ b with otherErr := Function.update b.otherErr n (some ((b.otherErr n).getD e)) },
        none)
  | .backendDone e => some ({ b with err := some (b.err.getD e) }, none)
  | .propagate i =>
      match b.dials i, b.err with
      | some d, some e => if d.derived then endDial b i (.backend e) else none
      | _, _ => none
  | .expire i =>
      match b.dials i with
      | some d => if d.derived ∧ 0 < timeout then endDial b i .dialDeadline else none
      | none => none
  | .cancel i =>
      match b.dials i with
      | some d => if d.registered ∧ d.callerErr.isSome then endDial b i .caller else none
      | none => none

/-- One backend of a server with this `backendDialTimeout`. -/
def backend (timeout : Int) : System Backend Tid Op Event Pick where
  exec := exec timeout
  arrive := arrive timeout
  halted := fun _ => false

def init : System.State Backend Tid Op := ⟨{}, fun _ => []⟩

end DialSend

end Konnectivity
