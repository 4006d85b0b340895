import Konnectivity.Client.Tunnel

/-!
# The reusable tunnel

`reusableGrpcTunnel` opens one stream for each `DialContext` on a connection
that all of them share. `children` counts the dials that may still have a
stream, and `Close` waits for it before it closes the connection.

A call of `DialContext` has up to four goroutines: the caller, the one that
establishes the stream, the `serve` of the child tunnel, and the one that waits
for the child. What `acceptMu` covers is one operation. Of a child tunnel only
its `done` is here: `serve` may end at any time, and a stream may be
established although its context is cancelled.
-/

namespace Konnectivity.Client.Reusable

open Lib

/-- A call of `DialContext` or of `Close`. -/
abbrev CallID := Nat

/-- What `newSingleStreamTunnel` returns. -/
inductive Established where
  | tunnel
  | failed (err : String)
  deriving DecidableEq, Repr

/-- What belongs to one call of `DialContext`. -/
structure Dial where
  /-- `requestCtx` is done. -/
  requestDone : Bool := false
  /-- `streamCancel` was called. -/
  cancelled : Bool := false
  resCh : GoChan Established := ⟨1, [], false⟩
  /-- The `done` of the child tunnel. -/
  innerDone : GoChan Unit := ⟨0, [], false⟩
  deriving DecidableEq, Repr

inductive Event where
  /-- `children.Add(1)`. -/
  | added (d : CallID)
  /-- `children.Done()`. -/
  | childDone (d : CallID)
  /-- `DialContext` found the tunnel closing. -/
  | refused (d : CallID)
  /-- `Proxy` returned a stream. -/
  | opened (d : CallID)
  /-- `Proxy` returned an error. -/
  | notOpened (d : CallID)
  /-- The child has closed its `done`. -/
  | finished (d : CallID)
  | dialReturned (d : CallID) (ret : DialReturn)
  /-- `Close` has set `closing`. -/
  | closing (k : CallID)
  /-- `cc.Close` returned. -/
  | connClosed (err : Option String)
  | doneClosed
  | closeReturned (k : CallID) (err : Option String)
  deriving DecidableEq, Repr

inductive Panic where
  | negativeCounter
  | chan (reason : ChanPanic)
  deriving DecidableEq, Repr

structure ReusableState where
  closing : Bool := false
  /-- `tunnelCancel` was called. -/
  cancelled : Bool := false
  children : Int := 0
  done : GoChan Unit := ⟨0, [], false⟩
  dial : CallID → Dial := fun _ => {}
  /-- The number of calls so far. -/
  calls : CallID := 0
  log : List Event := []
  panic : Option Panic := none

namespace ReusableState

variable (s : ReusableState)

@[simps]
def record (e : Event) : ReusableState := { s with log := e :: s.log }

@[simps]
def setDial (d : CallID) (x : Dial) : ReusableState :=
  { s with dial := Function.update s.dial d x }

end ReusableState

inductive Tid where
  | dial (d : CallID)
  | establish (d : CallID)
  | serve (d : CallID)
  | watch (d : CallID)
  | close (k : CallID)
  deriving DecidableEq, Repr

inductive Op where
  | dialContext (d : CallID) (protocol : String)
  | accept (d : CallID)
  | establish (d : CallID)
  | select (d : CallID)
  | drain (d : CallID)
  | startWatch (d : CallID)
  | childrenDone (d : CallID)
  | streamCancel (d : CallID)
  | innerDial (d : CallID)
  | dialReturn (d : CallID) (ret : DialReturn)
  | proxy (d : CallID)
  | startServe (d : CallID)
  | sendResult (d : CallID) (res : Established)
  | serve (d : CallID)
  | closeInner (d : CallID)
  | awaitInner (d : CallID)
  | close (k : CallID)
  | awaitDone (k : CallID)
  | tunnelCancel (k : CallID)
  | childrenWait (k : CallID)
  | connClose (k : CallID)
  | closeDone (k : CallID) (err : Option String)
  | closeReturn (k : CallID) (err : Option String)
  deriving DecidableEq, Repr

structure Choice where
  /-- Which ready case the `select` of `DialContext` takes. -/
  request : Bool := false
  /-- What `Proxy` returns. -/
  proxy : Established := .tunnel
  /-- `serve` goes on. -/
  serving : Bool := true
  /-- What `DialContext` of the child returns. -/
  inner : DialReturn := .conn 0
  /-- What `cc.Close` returns. -/
  connErr : Option String := none
  deriving DecidableEq, Repr

/-- The failures `DialContext` itself returns. -/
def protocolNotSupported : DialReturn := .failed ⟨"protocol not supported", .unknown⟩
def tunnelClosed : DialReturn := .failed ⟨"tunnel closed", .tunnelClosed⟩
def dialTimeout : DialReturn := .failed ⟨"dial timeout, context", .context⟩

/-- `children.Done()`. -/
def ReusableState.childrenDone (s : ReusableState) (d : CallID) : ReusableState :=
  if s.children - 1 < 0 then { s with panic := some .negativeCounter }
  else { s with children := s.children - 1 }.record (.childDone d)

def exec (s : ReusableState) (_ : Tid) (c : Choice) :
    Op → Option (ReusableState × List Op × Option (Tid × List Op))
  | .dialContext d protocol =>
      if protocol ≠ "tcp" then some (s.record (.dialReturned d protocolNotSupported), [], none)
      else some (s, [.accept d], none)
  | .accept d =>
      if s.closing then some (s.record (.refused d), [.dialReturn d tunnelClosed], none)
      else
        some ({ s with children := s.children + 1 }.record (.added d), [.establish d], none)
  | .establish d => some (s, [.select d], some (.establish d, [.proxy d]))
  | .select d =>
      if c.request then
        if (s.dial d).requestDone then some (s, [.streamCancel d, .drain d], none) else none
      else
        match (s.dial d).resCh.recv with
        | some (some (.failed err), resCh) =>
            some (s.setDial d { s.dial d with resCh := resCh },
              [.streamCancel d, .childrenDone d, .dialReturn d (.failed ⟨err, .streamSetup⟩)], none)
        | some (some .tunnel, resCh) =>
            some (s.setDial d { s.dial d with resCh := resCh }, [.startWatch d, .innerDial d], none)
        | _ => none
  | .drain d =>
      match (s.dial d).resCh.recv with
      | some (some .tunnel, resCh) =>
          some (s.setDial d { s.dial d with resCh := resCh },
            [.startWatch d, .dialReturn d dialTimeout], none)
      | some (some (.failed _), resCh) =>
          some (s.setDial d { s.dial d with resCh := resCh },
            [.childrenDone d, .dialReturn d dialTimeout], none)
      | _ => none
  | .startWatch d => some (s, [], some (.watch d, [.awaitInner d]))
  | .childrenDone d => some (s.childrenDone d, [], none)
  | .streamCancel d => some (s.setDial d { s.dial d with cancelled := true }, [], none)
  | .innerDial d =>
      match c.inner with
      | .conn connID => some (s, [.dialReturn d (.conn connID)], none)
      | .failed err => some (s, [.streamCancel d, .dialReturn d (.failed err)], none)
  | .dialReturn d ret => some (s.record (.dialReturned d ret), [], none)
  | .proxy d =>
      match c.proxy with
      | .tunnel => some (s.record (.opened d), [.startServe d, .sendResult d .tunnel], none)
      | .failed err => some (s.record (.notOpened d), [.sendResult d (.failed err)], none)
  | .startServe d => some (s, [], some (.serve d, [.serve d]))
  | .sendResult d res =>
      match (s.dial d).resCh.send res with
      | some (.ok resCh) => some (s.setDial d { s.dial d with resCh := resCh }, [], none)
      | some (.error reason) => some ({ s with panic := some (.chan reason) }, [], none)
      | none => none
  | .serve d => some (s, if c.serving then [.serve d] else [.streamCancel d, .closeInner d], none)
  | .closeInner d =>
      match (s.dial d).innerDone.close with
      | .ok ch =>
          some ((s.setDial d { s.dial d with innerDone := ch }).record (.finished d), [], none)
      | .error reason => some ({ s with panic := some (.chan reason) }, [], none)
  | .awaitInner d => if (s.dial d).innerDone.closed then some (s, [.childrenDone d], none) else none
  | .close k =>
      if s.closing then some (s, [.awaitDone k], none)
      else some ({ s with closing := true }.record (.closing k), [.tunnelCancel k], none)
  | .awaitDone k => if s.done.closed then some (s, [.closeReturn k none], none) else none
  | .tunnelCancel k => some ({ s with cancelled := true }, [.childrenWait k], none)
  | .childrenWait k => if s.children = 0 then some (s, [.connClose k], none) else none
  | .connClose k => some (s.record (.connClosed c.connErr), [.closeDone k c.connErr], none)
  | .closeDone k err =>
      match s.done.close with
      | .ok ch => some ({ s with done := ch }.record .doneClosed, [.closeReturn k err], none)
      | .error reason => some ({ s with panic := some (.chan reason) }, [], none)
  | .closeReturn k err => some (s.record (.closeReturned k err), [], none)

inductive TunnelAction where
  | dialContext (protocol : String)
  | close
  /-- The `requestCtx` of a dial ends. -/
  | requestEnd (d : CallID)
  /-- `closeTunnel` of a child, which cancels its stream. -/
  | closeTunnel (d : CallID)
  deriving DecidableEq, Repr

def arrive (s : ReusableState) : TunnelAction → Option (ReusableState × Option (Tid × List Op))
  | .dialContext protocol =>
      some ({ s with calls := s.calls + 1 },
        some (.dial s.calls, [.dialContext s.calls protocol]))
  | .close => some ({ s with calls := s.calls + 1 }, some (.close s.calls, [.close s.calls]))
  | .requestEnd d => some (s.setDial d { s.dial d with requestDone := true }, none)
  | .closeTunnel d =>
      if .opened d ∈ s.log then some (s.setDial d { s.dial d with cancelled := true }, none)
      else none

/-- The tunnel; once a goroutine has panicked there is no step. -/
def reusableTunnel : System ReusableState Tid Op TunnelAction Choice where
  exec := exec
  arrive := arrive
  halted := fun s => s.panic.isSome

/-- `newReusableGrpcTunnel`. -/
def newReusableGrpcTunnel : System.State ReusableState Tid Op := ⟨{}, fun _ => []⟩

end Konnectivity.Client.Reusable
