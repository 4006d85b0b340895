import Konnectivity.Agent.Client
import Konnectivity.Client.Tunnel
import Konnectivity.Proofs.DialOnce

/-!
# Payloads that are not there

A packet whose payload is absent, or of another kind than its type says, is
one a peer may send. Each of the four receive loops reads the payload of some
types and passes over the others, and none checks that it is there: an empty
message, which is a `DIAL_REQ`, brings down the agent and the server.

A run of the server, the agent or the tunnel never reads a nil payload if and
only if every packet its loops handle has the payload that its branch reads.
-/

namespace Konnectivity

open Lib

/-- The payload is there, if the type is one of those the loop reads. -/
def Packet.readable (types : List PacketType) (pkt : Packet) : Prop :=
  pkt.type ∈ types → pkt.wellFormed = true

instance (types : List PacketType) (pkt : Packet) : Decidable (pkt.readable types) :=
  inferInstanceAs (Decidable (_ → _))

/-- The types whose payload `serveRecvFrontend` reads. -/
def frontendReads : List PacketType := [.dialReq, .closeReq, .dialCls, .data]

/-- The types whose payload `serveRecvBackend` reads. -/
def backendReads : List PacketType := [.dialRsp, .dialCls, .data, .closeRsp]

/-- The types whose payload `Client.Serve` reads. -/
def agentReads : List PacketType := [.dialReq, .data, .closeReq]

/-- The types whose payload `grpcTunnel.serve` reads. -/
def tunnelReads : List PacketType := [.dialRsp, .dialCls, .data, .closeRsp]

/-! ## The server -/

section Server

variable {cfg : ServerConfig} {s s₁ : ServerState} {t : Tid} {c : Choice} {op : Op} {ops : List Op}
  {start : Option (Tid × List Op)} {pkt : Packet}

theorem serveRecvBackend_eq_none {b : BackendId} :
    serveRecvBackend cfg b pkt = none ↔ ¬ pkt.readable backendReads := by
  obtain ⟨type, payload⟩ := pkt
  cases type <;> simp [serveRecvBackend, Packet.readable, backendReads, Packet.wellFormed]

theorem serveRecvFrontend_eq_none {f : Frontend} {st : StreamState} :
    serveRecvFrontend f st pkt = none ↔ ¬ pkt.readable frontendReads := by
  obtain ⟨type, payload⟩ := pkt
  cases type <;> simp [serveRecvFrontend, Packet.readable, frontendReads, Packet.wellFormed]

/-- The packet a loop of the server takes is readable. -/
def ServerAction.reads : ServerAction → Prop
  | .deliver _ pkt => pkt.readable backendReads
  | .receive _ pkt => pkt.readable frontendReads
  | _ => True

theorem exec_reads (hs : s.panic ≠ some .nilPayload)
    (hex : exec cfg s t c op = some (s₁, ops, start)) : s₁.panic ≠ some .nilPayload := by
  by_cases hop : ∃ f pkt k, op = .sendFrontend (some f) pkt k
  · obtain ⟨f, pkt, k, rfl⟩ := hop
    simp only [exec] at hex
    split at hex
    · cases hex
    · next hsend =>
        cases hex
        simp only [ServerState.sendFrontend] at hsend
        split at hsend
        · cases hsend
          exact hs
        · split at hsend
          · cases hsend
          · split at hsend <;> cases hsend
            · next reason hst =>
                simp only [StreamState.send] at hst
                repeat' split at hst
                all_goals cases hst
                simp
            · exact hs
  · obtain ⟨-, hpanic⟩ := exec_streams hex fun f pkt k heq => hop ⟨f, pkt, k, heq⟩
    rcases hpanic with hpanic | hpanic
    · rw [hpanic]
      exact hs
    · simp [hpanic]

theorem arrive_reads {a : ServerAction} (hs : s.panic = none)
    (harr : arrive cfg s a = some (s₁, start)) :
    s₁.panic = some .nilPayload ↔ ¬ a.reads := by
  have hother : ∀ {s₁ : ServerState}, s₁.panic = s.panic →
      (s₁.panic = some .nilPayload ↔ ¬ True) := by
    intro s₁ h
    simp [h, hs]
  cases a with
  | deliver b pkt =>
      simp only [arrive] at harr
      split at harr
      · split at harr <;> cases harr
        · next hnone => exact iff_of_true rfl (serveRecvBackend_eq_none.mp hnone)
        · next hsome =>
            refine iff_of_false (by simp [hs]) fun hn => ?_
            rw [serveRecvBackend_eq_none.mpr hn] at hsome
            cases hsome
      · cases harr
  | receive u pkt =>
      simp only [arrive] at harr
      split at harr
      · split at harr
        · cases harr
        · split at harr <;> cases harr
          · next hnone => exact iff_of_true rfl (serveRecvFrontend_eq_none.mp hnone)
          · next hsome =>
              refine iff_of_false (by simp [hs]) fun hn => ?_
              rw [serveRecvFrontend_eq_none.mpr hn] at hsome
              cases hsome
      · cases harr
  | _ =>
      simp only [arrive] at harr
      repeat' split at harr
      all_goals cases harr
      all_goals exact hother rfl

theorem server_reads (s : System.State ServerState Tid Op)
    (a : System.Action Tid ServerAction Choice)
    (s' : System.State ServerState Tid Op) (h : (server cfg).step s a = some s') :
    ¬ s.shared.panic = some .nilPayload ∧ (s'.shared.panic = some .nilPayload ↔
      ¬ System.Allowed (fun _ _ _ _ => True) (fun _ a => a.reads) s a) := by
  refine System.step_bad_iff (fun s : ServerState => s.panic = some .nilPayload) (fun s hb => ?_)
    (fun {s} _ _ _ _ _ _ hrun hex => ?_) (fun hrun harr => ?_) s a s' h
  · simp [server, hb]
  · have hs : s.panic = none := by simpa [server] using hrun
    exact iff_of_false (exec_reads (by simp [hs]) hex) fun hn => hn trivial
  · exact arrive_reads (by simpa [server] using hrun) harr

end Server

/-! ## The agent -/

namespace Agent.Client

variable {s s₁ : ClientState} {t : Tid} {c : Choice} {op : Op} {ops : List Op}
  {start : Option (Tid × List Op)} {pkt : Packet}

/-- The packets `Serve` takes are readable. -/
def Op.reads : Op → Prop
  | .serve pkt => pkt.readable agentReads
  | _ => True

theorem servePacket_reads (hs : s.panic = none) (hex : servePacket s pkt = (s₁, ops, start)) :
    s₁.panic = some .nilPayload ↔ ¬ pkt.readable agentReads := by
  obtain ⟨type, payload⟩ := pkt
  cases type with
  | dialReq =>
      simp only [servePacket] at hex
      split at hex <;> cases hex
      · next hnone => simp [Packet.readable, agentReads, Packet.wellFormed, hnone]
      · next hsome => simp [Packet.readable, agentReads, Packet.wellFormed, hsome, hs]
  | data =>
      simp only [servePacket] at hex
      split at hex
      · next hnone =>
          cases hex
          simp [Packet.readable, agentReads, Packet.wellFormed, hnone]
      · next hsome =>
          repeat' split at hex
          all_goals cases hex
          all_goals simp [Packet.readable, agentReads, Packet.wellFormed, hsome, hs]
  | closeReq =>
      simp only [servePacket] at hex
      split at hex
      · next hnone =>
          cases hex
          simp [Packet.readable, agentReads, Packet.wellFormed, hnone]
      · next hsome =>
          split at hex <;> cases hex
          all_goals simp [Packet.readable, agentReads, Packet.wellFormed, hsome, hs]
  | _ =>
      simp only [servePacket] at hex
      cases hex
      simp [Packet.readable, agentReads, hs]

theorem exec_reads (hs : s.panic = none) (hex : exec s t c op = some (s₁, ops, start)) :
    s₁.panic = some .nilPayload ↔ ¬ op.reads := by
  have hother : ∀ {s₁ : ClientState}, s₁.panic = none ∨ (∃ reason, s₁.panic = some (.chan reason)) →
      (s₁.panic = some .nilPayload ↔ ¬ True) := by
    rintro s₁ (h | ⟨reason, h⟩) <;> simp [h]
  cases op with
  | serve pkt => exact servePacket_reads hs (Option.some.inj hex)
  | cleanupAll rest =>
      cases rest <;> simp only [exec] at hex <;> repeat' split at hex
      all_goals cases hex
      all_goals exact hother (Or.inl hs)
  | recvFailed =>
      simp only [exec] at hex
      cases hex
      refine hother (Or.inl ?_)
      split <;> exact hs
  | connRead k =>
      simp only [exec] at hex
      split at hex
      · split at hex <;> cases hex
        exact hother (Or.inl hs)
      · cases hex
        refine hother (Or.inl ?_)
        split <;> exact hs
  | _ =>
      simp only [exec, closeCh] at hex
      repeat' split at hex
      all_goals cases hex
      all_goals first
        | exact hother (Or.inl hs)
        | exact hother (Or.inr ⟨_, rfl⟩)

theorem arrive_panic {a : ClientAction} (harr : arrive s a = some (s₁, start)) :
    s₁.panic = s.panic := by
  cases a <;> simp only [arrive] at harr <;> repeat' split at harr
  all_goals cases harr
  all_goals rfl

theorem client_reads (s : System.State ClientState Tid Op)
    (a : System.Action Tid ClientAction Choice)
    (s' : System.State ClientState Tid Op) (h : client.step s a = some s') :
    ¬ s.shared.panic = some .nilPayload ∧ (s'.shared.panic = some .nilPayload ↔
      ¬ System.Allowed (fun _ _ _ o => o.reads) (fun _ _ => True) s a) := by
  refine System.step_bad_iff (fun s : ClientState => s.panic = some .nilPayload) (fun s hb => ?_)
    (fun hrun hex => ?_) (fun {s} _ _ _ hrun harr => ?_) s a s' h
  · simp [client, hb]
  · exact exec_reads (by simpa [client] using hrun) hex
  · have hs : s.panic = none := by simpa [client] using hrun
    simp [arrive_panic harr, hs]

end Agent.Client

/-! ## The tunnel -/

namespace Client

variable {s s₁ : TunnelState} {t : Tid} {c : Choice} {op : Op} {ops : List Op}
  {start : Option (Tid × List Op)} {pkt : Packet}

theorem serve_eq_none : serve pkt = none ↔ ¬ pkt.readable tunnelReads := by
  obtain ⟨type, payload⟩ := pkt
  cases type <;> simp [serve, Packet.readable, tunnelReads, Packet.wellFormed]

/-- The packets `serve` takes while it is not closing are readable. -/
def Op.reads (s : TunnelState) : Op → Prop
  | .dispatch pkt => s.closing = false → pkt.readable tunnelReads
  | _ => True

theorem closeAll_panic (hs : s.panic ≠ some .nilPayload) :
    ∀ rs : List DialID, (rs.foldl TunnelState.closeReadCh s).panic ≠ some .nilPayload := by
  intro rs
  induction rs generalizing s with
  | nil => exact hs
  | cons r rs ih =>
      refine ih ?_
      unfold TunnelState.closeReadCh
      split
      · simp
      · exact hs

theorem exec_reads (hs : s.panic = none) (hex : exec s t c op = some (s₁, ops, start)) :
    s₁.panic = some .nilPayload ↔ ¬ op.reads s := by
  have hother : ∀ {s₁ : TunnelState}, s₁.panic ≠ some .nilPayload →
      (s₁.panic = some .nilPayload ↔ ¬ True) := by
    intro s₁ h
    simp [h]
  cases op with
  | dispatch pkt =>
      simp only [exec] at hex
      split at hex
      · next hclosing =>
          cases hex
          simp [Op.reads, hclosing, hs]
      · next hclosing =>
          have hfalse : s.closing = false := by simpa using hclosing
          split at hex <;> cases hex
          · next hnone =>
              refine iff_of_true rfl fun hr => serve_eq_none.mp hnone (hr hfalse)
          · next hsome =>
              refine iff_of_false (by simp [hs]) fun hn => hn fun _ => ?_
              by_contra hnot
              rw [serve_eq_none.mpr hnot] at hsome
              cases hsome
  | closeAll =>
      simp only [exec] at hex
      cases hex
      exact hother (closeAll_panic (by simp [hs]) _)
  | closeReadCh r =>
      simp only [exec] at hex
      cases hex
      exact hother (closeAll_panic (by simp [hs]) [r])
  | awaitTaken r res =>
      simp only [exec, Option.map_eq_some_iff] at hex
      obtain ⟨⟨s', ops'⟩, hex, heq⟩ := hex
      cases heq
      simp only [TunnelState.awaitTaken] at hex
      repeat' split at hex
      all_goals cases hex
      all_goals exact hother (by simp [hs])
  | sendReadCh r pkt data =>
      simp only [exec, Option.map_eq_some_iff] at hex
      obtain ⟨⟨s', ops'⟩, hex, heq⟩ := hex
      cases heq
      simp only [TunnelState.sendReadCh] at hex
      repeat' split at hex
      all_goals cases hex
      all_goals exact hother (by simp [hs])
  | awaitResult r =>
      simp only [exec, TunnelState.awaitResult] at hex
      repeat' split at hex
      all_goals cases hex
      all_goals exact hother (by simp [hs])
  | _ =>
      simp only [exec] at hex
      repeat' split at hex
      all_goals cases hex
      all_goals exact hother (by simp [hs])

theorem arrive_panic {a : TunnelAction} (harr : arrive s a = some (s₁, start)) :
    s₁.panic = s.panic := by
  cases a <;> simp only [arrive] at harr <;> repeat' split at harr
  all_goals cases harr
  all_goals rfl

theorem tunnel_reads (s : System.State TunnelState Tid Op)
    (a : System.Action Tid TunnelAction Choice)
    (s' : System.State TunnelState Tid Op) (h : tunnel.step s a = some s') :
    ¬ s.shared.panic = some .nilPayload ∧ (s'.shared.panic = some .nilPayload ↔
      ¬ System.Allowed (fun s _ _ o => o.reads s) (fun _ _ => True) s a) := by
  refine System.step_bad_iff (fun s : TunnelState => s.panic = some .nilPayload) (fun s hb => ?_)
    (fun hrun hex => ?_) (fun {s} _ _ _ hrun harr => ?_) s a s' h
  · simp [tunnel, hb]
  · exact exec_reads (by simpa [tunnel] using hrun) hex
  · have hs : s.panic = none := by simpa [tunnel] using hrun
    simp [arrive_panic harr, hs]

end Client

/-! ## The four loops -/

/-- A run of the server, of the agent or of the tunnel reads no nil payload if
and only if every packet a receive loop takes in it has the payload that the
loop reads. -/
theorem nil_payload_iff (cfg : ServerConfig) (xfrChannelSize fromServer toServer : Nat) :
    (∀ as s, run (server cfg).step newServer as = some s →
      (s.shared.panic ≠ some .nilPayload ↔
        runOk (server cfg).step (System.Allowed (fun _ _ _ _ => True) fun _ a => a.reads)
          newServer as)) ∧
    (∀ as s, run Agent.Client.client.step
        (Agent.Client.newAgentClient xfrChannelSize fromServer toServer) as = some s →
      (s.shared.panic ≠ some .nilPayload ↔
        runOk Agent.Client.client.step (System.Allowed (fun _ _ _ o => o.reads) fun _ _ => True)
          (Agent.Client.newAgentClient xfrChannelSize fromServer toServer) as)) ∧
    ∀ as s, run Client.tunnel.step Client.newTunnel as = some s →
      (s.shared.panic ≠ some .nilPayload ↔
        runOk Client.tunnel.step (System.Allowed (fun s _ _ o => o.reads s) fun _ _ => True)
          Client.newTunnel as) := by
  refine ⟨fun as s h => ?_, fun as s h => ?_, fun as s h => ?_⟩
  · exact run_iff_runOk (fun s => s.shared.panic = some .nilPayload) server_reads
      (by simp [newServer]) h
  · exact run_iff_runOk (fun s => s.shared.panic = some .nilPayload) Agent.Client.client_reads
      (by simp [Agent.Client.newAgentClient]) h
  · exact run_iff_runOk (fun s => s.shared.panic = some .nilPayload) Client.tunnel_reads
      (by simp [Client.newTunnel]) h

/-- An empty message: type 0 and no payload. -/
def Packet.empty : Packet := ⟨.dialReq, none⟩

/-- A `DATA` without payload. -/
def Packet.emptyData : Packet := ⟨.data, none⟩

/-- Each of the four loops reads a nil payload: those that take a `DIAL_REQ` do
so on an empty message, the others on a `DATA` without payload. -/
theorem nil_payload_read :
    (∃ s, run (server ⟨fun _ => ⟨"a", {}⟩, false⟩).step newServer
      [.arrive (.openStream "x" none), .arrive (.receive "x" .empty)] = some s ∧
      s.shared.panic = some .nilPayload) ∧
    (∃ s, run (server ⟨fun _ => ⟨"a", {}⟩, false⟩).step newServer
      [.arrive (.connect 0), .arrive (.deliver 0 .emptyData)] = some s ∧
      s.shared.panic = some .nilPayload) ∧
    (∃ s, run Agent.Client.client.step (Agent.Client.newAgentClient 1 1 1)
      [.arrive (.deliver .empty), .run .serve {}, .run .serve {}, .run .serve {}] = some s ∧
      s.shared.panic = some .nilPayload) ∧
    ∃ s, run Client.tunnel.step Client.newTunnel
      [.arrive (.receive .emptyData), .run .serve {}] = some s ∧
      s.shared.panic = some .nilPayload := by
  refine ⟨?_, ?_, ?_, ?_⟩
  · exact ⟨_, rfl, rfl⟩
  · exact ⟨_, rfl, rfl⟩
  · exact ⟨_, rfl, rfl⟩
  · exact ⟨_, rfl, rfl⟩

end Konnectivity
