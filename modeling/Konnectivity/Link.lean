import Konnectivity.Agent.Client
import Konnectivity.Server.Machine

/-!
# An agent and the server over one stream

The agent client and the proxy server with the stream between them. In each
direction the stream is FIFO and loses nothing; it ends when the agent closes
its connection, and not before. `readBackendToChannel` moves what the agent has
sent into `recvCh`, from which the dispatcher of the stream takes it. What the
server sends to the agent goes the other way: packets sent directly and packets
that were queued, each in their order.

The server may have other streams, other agents may sit behind them, and
frontends come and go. All of that happens as in the server's own model.
-/

namespace Konnectivity.Link

open Lib

structure State where
  agent : System.State Agent.Client.ClientState Agent.Client.Tid Agent.Client.Op
  server : System.State ServerState Tid Op
  /-- `recvCh` of the stream. -/
  recvCh : GoChan Packet
  /-- How many of the packets sent directly have gone into the stream. -/
  direct : Nat := 0
  /-- How many of the queued ones. -/
  queued : Nat := 0

inductive Action where
  | agent (a : System.Action Agent.Client.Tid Agent.Client.ClientAction Agent.Client.Choice)
  | server (a : System.Action Tid ServerAction Choice)
  /-- A packet that `Backend.Send` took goes into the stream. -/
  | sendDirect
  /-- `sendQueued` sends a packet. -/
  | sendQueued
  /-- `readBackendToChannel` receives a packet. -/
  | readBackendToChannel
  /-- `serveRecvBackend` takes a packet from `recvCh`. -/
  | dispatch

def Event.direct (b : BackendId) : Event → List Packet
  | .toBackend _ b' pkt ok => if b' = b ∧ ok = true then [pkt] else []
  | _ => []

def Event.queued (b : BackendId) : Event → List Packet
  | .queued _ b' pkt => if b' = b then [pkt] else []
  | _ => []

/-- The steps of the agent that do not involve the other end of the stream. -/
def agentMay : System.Action Agent.Client.Tid Agent.Client.ClientAction Agent.Client.Choice → Bool
  | .arrive (.deliver _) | .arrive .take => false
  | _ => true

/-- The steps of the server, given the stream. -/
def serverMay (b : BackendId) (s : State) : System.Action Tid ServerAction Choice → Bool
  | .arrive (.deliver b' _) => b' != b
  | .arrive (.recvEnd b' _) | .arrive (.ctxDone b') => b' != b || s.agent.shared.grpcClosed
  | .arrive (.drained b') => b' != b || s.recvCh.buf.isEmpty
  | _ => true

variable (cfg : ServerConfig) (b : BackendId)

/-- The packet goes to the agent. -/
def State.down (s : State) (pkt : Packet) : Option State :=
  (Agent.Client.client.step s.agent (.arrive (.deliver pkt))).map fun x => { s with agent := x }

def step (s : State) : Action → Option State
  | .agent a =>
      if agentMay a then
        (Agent.Client.client.step s.agent a).map fun x => { s with agent := x }
      else none
  | .server a =>
      if serverMay b s a then ((server cfg).step s.server a).map fun x => { s with server := x }
      else none
  | .sendDirect =>
      match (s.server.shared.log.reverse.flatMap (Event.direct b))[s.direct]? with
      | none => none
      | some pkt => { s with direct := s.direct + 1 }.down pkt
  | .sendQueued =>
      match (s.server.shared.log.reverse.flatMap (Event.queued b))[s.queued]? with
      | none => none
      | some pkt => { s with queued := s.queued + 1 }.down pkt
  | .readBackendToChannel =>
      if (s.server.shared.backends b).stopped then none
      else
        match s.agent.shared.toServer.buf with
        | [] => none
        | pkt :: _ =>
            match s.recvCh.send pkt with
            | some (.ok ch) =>
                (Agent.Client.client.step s.agent (.arrive .take)).map fun x =>
                  { s with agent := x, recvCh := ch }
            | _ => none
  | .dispatch =>
      match s.recvCh.recv with
      | some (some pkt, ch) =>
          ((server cfg).step s.server (.arrive (.deliver b pkt))).map fun x =>
            { s with server := x, recvCh := ch }
      | _ => none

/-- Nothing has happened yet on either side. -/
def new (xfrChannelSize recvChSize fromServer toServer : Nat) : State where
  agent := Agent.Client.newAgentClient xfrChannelSize fromServer toServer
  server := newServer
  recvCh := ⟨recvChSize, [], false⟩

end Konnectivity.Link
