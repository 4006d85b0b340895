import Konnectivity.Lib.GoChan
import Konnectivity.Lib.GoMap
import Konnectivity.Lib.Threads

/-!
# The clients of an agent

A `ClientSet` keeps one `Client` for each proxy server it knows. The goroutine
`sync` makes new ones and installs them; the goroutines of a client remove it
when its stream or its connection fails. What `cs.mu` covers is one operation
here. A `*Client` is a number, given out by `newAgentClient`.
-/

namespace Konnectivity.Agent.ClientSet

open Lib

/-- A `*Client`. -/
abbrev ClientRef := Nat

structure ClientSetConfig where
  syncForever : Bool
  countServerLeases : Bool
  deriving DecidableEq, Repr

/-- A `Client`, as far as the set is concerned. -/
structure Client where
  serverID : String := ""
  stopCh : GoChan Unit := ⟨0, [], false⟩
  /-- `Serve` has started the goroutines of the client. -/
  serving : Bool := false
  deriving DecidableEq, Repr

/-- Who calls `removeClient`. -/
inductive Remover where
  | serveExit
  | recvError
  | sendError
  | probe
  deriving DecidableEq, Repr

inductive Event where
  /-- `newAgentClient` returned the client. -/
  | connected (c : ClientRef)
  /-- `AddClient` installed it. -/
  | added (c : ClientRef)
  /-- `AddClient` refused it. -/
  | refused (c : ClientRef)
  /-- `connectOnce` returned a `DuplicateServerError` for it. -/
  | duplicate (c : ClientRef)
  /-- `Client.Close` was called. -/
  | closed (c : ClientRef)
  /-- What `removeClient` returned. -/
  | removed (c : ClientRef) (ok : Bool)
  deriving DecidableEq, Repr

structure SetState where
  clients : GoMap String ClientRef := ∅
  client : ClientRef → Client := fun _ => {}
  /-- The clients made so far. -/
  next : ClientRef := 0
  lastReceivedServerCount : Int := 0
  /-- `drainCh` is closed. -/
  draining : Bool := false
  /-- `stopCh` is closed. -/
  stopped : Bool := false
  log : List Event := []
  panic : Option ChanPanic := none

namespace SetState

variable (s : SetState)

@[simps]
def record (e : Event) : SetState := { s with log := e :: s.log }

@[simps]
def setClient (c : ClientRef) (x : Client) : SetState :=
  { s with client := Function.update s.client c x }

/-- `Client.Close`. -/
def close (c : ClientRef) : SetState :=
  match (s.client c).stopCh.close with
  | .error reason => { s.record (.closed c) with panic := some reason }
  | .ok ch => (s.record (.closed c)).setClient c { s.client c with stopCh := ch }

/-- `Client.Close` and `delete(cs.clients, serverID)`. -/
def closeAndDelete (serverID : String) (c : ClientRef) : SetState :=
  { s.close c with clients := (s.close c).clients.erase serverID }

end SetState

/-! ## Operations -/

inductive Tid where
  | sync
  | serve (c : ClientRef)
  | probe (c : ClientRef)
  /-- Whoever calls `Client.Send`. -/
  | sender (n : Nat)
  deriving DecidableEq, Repr

inductive Op where
  | connectOnce
  | clientsCount (serverCount : Int)
  | newAgentClient
  | addClient (c : ClientRef) (serverCount : Int)
  | closeDuplicate (c : ClientRef)
  | syncWait
  | shutdown
  | startProbe (c : ClientRef)
  | serveLoop (c : ClientRef)
  | recv (c : ClientRef)
  | recvErr (c : ClientRef)
  | probeLoop (c : ClientRef)
  | streamSend (c : ClientRef)
  | removeClient (c : ClientRef) (remover : Remover)
  deriving DecidableEq, Repr

structure Choice where
  /-- What `serverCounter.Count` answers. -/
  serverCount : Int := 0
  /-- The server ID and server count `Connect` reads, unless it fails. -/
  connect : Option (String × Int) := none
  /-- `Recv` and `Send` succeed; the connection is ready when it is probed. -/
  ok : Bool := true
  /-- The error of `Send` is `io.EOF`. -/
  eof : Bool := false
  /-- Which of two ready cases the `select` of `probe` takes. -/
  tick : Bool := true
  deriving DecidableEq, Repr

/-- The client set of one configuration. -/
def exec (cfg : ClientSetConfig) (s : SetState) (_ : Tid) (ch : Choice) :
    Op → Option (SetState × List Op × Option (Tid × List Op))
  | .connectOnce => some (s, if s.draining then [] else [.clientsCount ch.serverCount], none)
  | .clientsCount n =>
      if (s.clients.size : Int) ≥ n ∧ n > 0 ∧
      (!cfg.syncForever || cfg.countServerLeases) = true then
        some (s, [], none)
      else some (s, [.newAgentClient], none)
  | .newAgentClient =>
      match ch.connect with
      | none => some (s, [], none)
      | some (serverID, count) =>
          some (({ s with next := s.next + 1 }.setClient s.next { serverID := serverID }).record
            (.connected s.next), [.addClient s.next count], none)
  | .addClient c count =>
      match s.clients.lookup (s.client c).serverID with
      | some _ => some (s.record (.refused c), [.closeDuplicate c], none)
      | none =>
          let clients := s.clients.insert (s.client c).serverID c
          some ({ s with clients := clients, lastReceivedServerCount := count }.record (.added c),
            [], some (.serve c, [.startProbe c, .serveLoop c]))
  | .closeDuplicate c => some ((s.close c).record (.duplicate c), [], none)
  | .syncWait => some (s, if s.stopped then [.shutdown] else [.connectOnce, .syncWait], none)
  | .shutdown =>
      some (s.clients.entries.foldl (fun s e => s.closeAndDelete e.1 e.2) s, [], none)
  | .startProbe c =>
      some (s.setClient c { s.client c with serving := true }, [], some (.probe c, [.probeLoop c]))
  | .serveLoop c =>
      some (s, if (s.client c).stopCh.closed then [.removeClient c .serveExit] else [.recv c], none)
  | .recv c => some (s, if ch.ok then [.serveLoop c] else [.recvErr c], none)
  | .recvErr c =>
      some (s, (if (s.client c).stopCh.closed then [] else [.removeClient c .recvError]) ++
        [.removeClient c .serveExit], none)
  | .probeLoop c =>
      if ch.tick then
        some (s, if ch.ok then [.probeLoop c] else [.removeClient c .probe], none)
      else if (s.client c).stopCh.closed then some (s, [], none)
      else none
  | .streamSend c =>
      some (s, if ch.ok || ch.eof then [] else [.removeClient c .sendError], none)
  | .removeClient c _ =>
      if s.clients.lookup (s.client c).serverID = some c then
        some ((s.closeAndDelete (s.client c).serverID c).record (.removed c true), [], none)
      else some (s.record (.removed c false), [], none)

inductive SetAction where
  /-- `drainCh` is closed. -/
  | drain
  /-- `stopCh` is closed. -/
  | stop
  /-- A goroutine of the client calls `Send`. -/
  | send (n : Nat) (c : ClientRef)
  /-- The exported `RemoveClient`. -/
  | removeClient (serverID : String)
  deriving DecidableEq, Repr

def arrive (s : SetState) : SetAction → Option (SetState × Option (Tid × List Op))
  | .drain => some ({ s with draining := true }, none)
  | .stop => some ({ s with stopped := true }, none)
  | .send n c =>
      if (s.client c).serving then some (s, some (.sender n, [.streamSend c])) else none
  | .removeClient serverID =>
      match s.clients.lookup serverID with
      | none => some (s, none)
      | some c => some (s.closeAndDelete serverID c, none)

/-- The client set; once a goroutine has panicked there is no step. -/
def clientSet (cfg : ClientSetConfig) : System SetState Tid Op SetAction Choice where
  exec := exec cfg
  arrive := arrive
  halted := fun s => s.panic.isSome

/-- `NewAgentClientSet`, with `sync` running. -/
def newAgentClientSet : System.State SetState Tid Op :=
  ⟨{}, fun t => if t = .sync then [.connectOnce, .syncWait] else []⟩

end Konnectivity.Agent.ClientSet
