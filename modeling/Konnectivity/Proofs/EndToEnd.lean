import Konnectivity.Link
import Konnectivity.Proofs.Dispatch
import Konnectivity.Proofs.RemoteReads

/-!
# From the remote to the frontend

What the agent reads from a remote reaches the frontend through its own
channels, the stream, `recvCh` and the dispatcher. Each end was looked at by
itself: what the agent says about a connection, and what a dispatcher makes of
the packets it takes. A run of both is a run of each, and the stream between them
holds what the agent has sent and the dispatcher has not yet taken.
-/

namespace Konnectivity

def Agent.Client.Op.isSend : Agent.Client.Op → Bool
  | .streamSend _ _ _ => true
  | _ => false

namespace Link

open Lib Agent.Client

/-! ## A run of both is a run of each -/

section Steps

variable {cfg : ServerConfig} {b : BackendId} {s s' : State} {a : Action}

/-- What a step can be. -/
theorem step_cases (h : step cfg b s a = some s') :
    (∃ x ag, a = .agent x ∧ agentMay x = true ∧ client.step s.agent x = some ag ∧
      s' = { s with agent := ag }) ∨
    (∃ x sv, a = .server x ∧ serverMay b s x = true ∧ (server cfg).step s.server x = some sv ∧
      s' = { s with server := sv }) ∨
    (∃ pkt ag direct queued, client.step s.agent (.arrive (.deliver pkt)) = some ag ∧
      s' = { s with agent := ag, direct := direct, queued := queued }) ∨
    (∃ pkt rest ag ch, s.agent.shared.toServer.buf = pkt :: rest ∧
      client.step s.agent (.arrive .take) = some ag ∧ s.recvCh.send pkt = some (.ok ch) ∧
      s' = { s with agent := ag, recvCh := ch }) ∨
    ∃ pkt sv ch, s.recvCh.recv = some (some pkt, ch) ∧
      (server cfg).step s.server (.arrive (.deliver b pkt)) = some sv ∧
      s' = { s with server := sv, recvCh := ch } := by
  cases a with
  | agent x =>
      simp only [step] at h
      split at h
      · next hmay =>
          obtain ⟨ag, hag, rfl⟩ := Option.map_eq_some_iff.mp h
          exact Or.inl ⟨x, ag, rfl, hmay, hag, rfl⟩
      · cases h
  | server x =>
      simp only [step] at h
      split at h
      · next hmay =>
          obtain ⟨sv, hsv, rfl⟩ := Option.map_eq_some_iff.mp h
          exact Or.inr (Or.inl ⟨x, sv, rfl, hmay, hsv, rfl⟩)
      · cases h
  | sendDirect =>
      simp only [step] at h
      split at h
      · cases h
      · obtain ⟨ag, hag, rfl⟩ := Option.map_eq_some_iff.mp h
        exact Or.inr (Or.inr (Or.inl ⟨_, ag, _, _, hag, rfl⟩))
  | sendQueued =>
      simp only [step] at h
      split at h
      · cases h
      · obtain ⟨ag, hag, rfl⟩ := Option.map_eq_some_iff.mp h
        exact Or.inr (Or.inr (Or.inl ⟨_, ag, _, _, hag, rfl⟩))
  | readBackendToChannel =>
      simp only [step] at h
      split at h
      · cases h
      · split at h
        · cases h
        · next pkt rest hbuf =>
            split at h
            · next ch hch =>
                obtain ⟨ag, hag, rfl⟩ := Option.map_eq_some_iff.mp h
                exact Or.inr (Or.inr (Or.inr (Or.inl ⟨pkt, rest, ag, ch, hbuf, hag, hch, rfl⟩)))
            · cases h
  | dispatch =>
      simp only [step] at h
      split at h
      · next pkt ch hch =>
          obtain ⟨sv, hsv, rfl⟩ := Option.map_eq_some_iff.mp h
          exact Or.inr (Or.inr (Or.inr (Or.inr ⟨pkt, sv, ch, hch, hsv, rfl⟩)))
      · cases h

end Steps

/-- A `Send` of the agent fails only where its connection is closed. -/
def Delivers (s : ClientState) (_ : Agent.Client.Tid) (c : Agent.Client.Choice)
    (o : Agent.Client.Op) : Prop :=
  o.isSend = true → c.send = .ok ∨ s.grpcClosed = true

instance Delivers.decidable (s : ClientState) (t : Agent.Client.Tid) (c : Agent.Client.Choice)
    (o : Agent.Client.Op) : Decidable (Delivers s t c o) :=
  inferInstanceAs (Decidable (_ → _))

/-- The conditions on a step of both. -/
def Faithful (cfg : ServerConfig) (s : State) : Action → Prop
  | .agent x => System.Allowed Delivers (fun _ _ => True) s.agent x
  | .server x => System.Allowed (Forwards cfg) (fun _ _ => True) s.server x
  | _ => True

instance Faithful.decidable (cfg : ServerConfig) (s : State) :
    ∀ a : Action, Decidable (Faithful cfg s a)
  | .agent x => inferInstanceAs (Decidable (System.Allowed Delivers (fun _ _ => True) s.agent x))
  | .server x => inferInstanceAs
      (Decidable (System.Allowed (Forwards cfg) (fun _ _ => True) s.server x))
  | .sendDirect | .sendQueued | .readBackendToChannel | .dispatch => isTrue trivial

section Runs

variable {cfg : ServerConfig} {b : BackendId} {xfrChannelSize recvChSize fromServer toServer : Nat}
  {s : State}

theorem reach_agent (h : Reach (step cfg b) (Faithful cfg)
    (new xfrChannelSize recvChSize fromServer toServer) s) :
    Reach client.step anyStep (newAgentClient xfrChannelSize fromServer toServer) s.agent := by
  refine Reach.invariant (fun s => Reach client.step anyStep
    (newAgentClient xfrChannelSize fromServer toServer) s.agent) .refl ?_ h
  intro s a s' _ hinv _ hst
  rcases step_cases hst with ⟨x, ag, -, -, hag, rfl⟩ | ⟨x, sv, -, -, -, rfl⟩ |
    ⟨pkt, ag, _, _, hag, rfl⟩ | ⟨pkt, rest, ag, ch, -, hag, -, rfl⟩ | ⟨pkt, sv, ch, -, -, rfl⟩
  · exact hinv.tail trivial hag
  · exact hinv
  · exact hinv.tail trivial hag
  · exact hinv.tail trivial hag
  · exact hinv

theorem reach_server (h : Reach (step cfg b) (Faithful cfg)
    (new xfrChannelSize recvChSize fromServer toServer) s) :
    Reach (server cfg).step (System.Allowed (Forwards cfg) fun _ _ => True) newServer s.server := by
  refine Reach.invariant (fun s => Reach (server cfg).step
    (System.Allowed (Forwards cfg) fun _ _ => True) newServer s.server) .refl ?_ h
  intro s a s' _ hinv hok hst
  rcases step_cases hst with ⟨x, ag, -, -, -, rfl⟩ | ⟨x, sv, rfl, -, hsv, rfl⟩ |
    ⟨pkt, ag, _, _, -, rfl⟩ | ⟨pkt, rest, ag, ch, -, -, -, rfl⟩ | ⟨pkt, sv, ch, -, hsv, rfl⟩
  · exact hinv
  · exact hinv.tail hok hsv
  · exact hinv
  · exact hinv
  · refine hinv.tail ?_ hsv
    trivial

end Runs

/-! ## The stream -/

def Event.sentPacket : Agent.Client.Event → List Packet
  | .sent pkt => [pkt]
  | _ => []

/-- What the agent has sent, oldest first. -/
def sentAll (log : List Agent.Client.Event) : List Packet := log.reverse.flatMap Event.sentPacket

@[simp]
theorem sentAll_cons (e : Agent.Client.Event) (log : List Agent.Client.Event) :
    sentAll (e :: log) = sentAll log ++ Event.sentPacket e := by
  simp [sentAll]

theorem packets_eq_filter (k : ConnID) (log : List Agent.Client.Event) :
    packets k log = (sentAll log).filter k.owns := by
  induction log with
  | nil => rfl
  | cons e log ih =>
      rw [packets_cons, sentAll_cons, List.filter_append, ih]
      congr 1
      cases e <;> simp [Agent.Client.Event.sentFor, Event.sentPacket, List.filter_cons]

section Agent

variable {s s₁ : ClientState} {t : Agent.Client.Tid} {c : Agent.Client.Choice}
  {op : Agent.Client.Op}
  {ops : List Agent.Client.Op} {start : Option (Agent.Client.Tid × List Agent.Client.Op)}

/-- What a step of the agent does to the stream and to its connection: it sends
packets of which `said` holds, opens nothing again and takes no number back. -/
structure Streams (s s₁ : ClientState) (said : Packet → Prop) : Prop where
  sent : ∃ new, s₁.toServer.buf = s.toServer.buf ++ new ∧ sentAll s₁.log = sentAll s.log ++ new ∧
    ∀ pkt ∈ new, said pkt
  closed : s.grpcClosed = true → s₁.grpcClosed = true
  next : s.nextConnID ≤ s₁.nextConnID

theorem exec_stream (hex : Agent.Client.exec s t c op = some (s₁, ops, start)) :
    Streams s s₁ fun pkt => ∃ caller begunClosed, op = .streamSend pkt caller begunClosed := by
  have quiet : ∀ {x : ClientState}, x.toServer = s.toServer → sentAll x.log = sentAll s.log →
      ∃ new, x.toServer.buf = s.toServer.buf ++ new ∧ sentAll x.log = sentAll s.log ++ new ∧
        ∀ pkt ∈ new, ∃ caller begunClosed, op = .streamSend pkt caller begunClosed :=
    fun h1 h2 => ⟨[], by rw [h1, List.append_nil], by rw [h2, List.append_nil], by simp⟩
  cases op with
  | streamSend pkt caller begunClosed =>
      simp only [Agent.Client.exec] at hex
      split at hex
      · split at hex
        · cases hex
        · split at hex
          · next ch hch =>
              cases hex
              have hbuf : ch.buf = s.toServer.buf ++ [pkt] := by
                simp only [GoChan.send] at hch
                repeat' split at hch
                all_goals cases hch
                rfl
              exact ⟨⟨[pkt], hbuf, by simp [Event.sentPacket], by simp⟩, id, Nat.le_refl _⟩
          · cases hex
      · cases hex
        exact ⟨quiet rfl rfl, id, Nat.le_refl _⟩
      · cases hex
        exact ⟨quiet rfl rfl, id, Nat.le_refl _⟩
  | serve pkt =>
      simp only [Agent.Client.exec, servePacket] at hex
      repeat' split at hex
      all_goals cases hex
      all_goals exact ⟨quiet rfl (by simp [Event.sentPacket]), id, by simp⟩
  | cleanupAll rest =>
      cases rest <;> simp only [Agent.Client.exec] at hex <;> repeat' split at hex
      all_goals cases hex
      all_goals exact ⟨quiet rfl rfl, id, Nat.le_refl _⟩
  | connRead k =>
      simp only [Agent.Client.exec] at hex
      repeat' split at hex
      all_goals cases hex
      · exact ⟨quiet rfl (by simp [Event.sentPacket]), id, Nat.le_refl _⟩
      · exact ⟨quiet rfl rfl, id, Nat.le_refl _⟩
      · exact ⟨quiet rfl (by simp [Event.sentPacket]), id, Nat.le_refl _⟩
  | recvFailed =>
      simp only [Agent.Client.exec] at hex
      cases hex
      split
      · exact ⟨quiet rfl rfl, id, Nat.le_refl _⟩
      · exact ⟨quiet rfl rfl, fun _ => rfl, Nat.le_refl _⟩
  | _ =>
      simp only [Agent.Client.exec, closeCh] at hex
      repeat' split at hex
      all_goals cases hex
      all_goals first
        | exact ⟨quiet rfl (by simp [Event.sentPacket]), id, Nat.le_refl _⟩
        | exact ⟨quiet rfl (by simp), fun _ => rfl, Nat.le_refl _⟩

theorem client_stream {s s' : Agent.Client.State}
    {a : System.Action Agent.Client.Tid ClientAction Agent.Client.Choice}
    (h : client.step s a = some s') (hne : a ≠ .arrive .take) :
    Streams s.shared s'.shared fun pkt =>
      ∃ t caller begunClosed, .streamSend pkt caller begunClosed ∈ s.threads t := by
  have arrives : ∀ {x : ClientAction} {s₁ : ClientState}
      {start : Option (Agent.Client.Tid × List Agent.Client.Op)}, x ≠ .take →
      Agent.Client.arrive s.shared x = some (s₁, start) →
      Streams s.shared s₁ fun pkt =>
        ∃ t caller begunClosed, .streamSend pkt caller begunClosed ∈ s.threads t := by
    intro x s₁ start hx harr
    cases x with
    | take => exact absurd rfl hx
    | _ =>
        simp only [Agent.Client.arrive] at harr
        repeat' split at harr
        all_goals cases harr
        all_goals refine ⟨⟨[], by simp, by simp, by simp⟩, ?_, Nat.le_refl _⟩
        all_goals first | exact id | exact fun _ => rfl
  have runs : ∀ {t : Agent.Client.Tid} {c : Agent.Client.Choice} {o : Agent.Client.Op}
      {rest ops : List Agent.Client.Op} {s₁ : ClientState}
      {start : Option (Agent.Client.Tid × List Agent.Client.Op)}, s.threads t = o :: rest →
      Agent.Client.exec s.shared t c o = some (s₁, ops, start) →
      Streams s.shared s₁ fun pkt =>
        ∃ t caller begunClosed, .streamSend pkt caller begunClosed ∈ s.threads t := by
    intro t c o rest ops s₁ start ht hex
    obtain ⟨⟨more, hbuf, hsent, hfrom⟩, hclosed, hnext⟩ := exec_stream hex
    refine ⟨⟨more, hbuf, hsent, fun pkt hpkt => ?_⟩, hclosed, hnext⟩
    obtain ⟨caller, begunClosed, rfl⟩ := hfrom pkt hpkt
    exact ⟨t, caller, begunClosed, by rw [ht]; exact List.mem_cons_self⟩
  rcases System.step_cases h with ⟨t, c, o, rest, s₁, ops, rfl, ht, hex, rfl⟩ |
    ⟨t, c, o, rest, s₁, ops, t', ops', rfl, ht, hex, rfl⟩ | ⟨x, s₁, rfl, harr, rfl⟩ |
    ⟨x, s₁, t, ops, rfl, harr, ht, rfl⟩
  · exact runs ht hex
  · exact runs ht hex
  · exact arrives (fun heq => hne (by rw [heq])) harr
  · exact arrives (fun heq => hne (by rw [heq])) harr

/-- The server takes a packet out of the stream. -/
theorem client_take {s s' : Agent.Client.State} (h : client.step s (.arrive .take) = some s') :
    (∃ pkt, s.shared.toServer.buf = pkt :: s'.shared.toServer.buf) ∧
      s'.shared.log = s.shared.log ∧ s'.shared.grpcClosed = s.shared.grpcClosed ∧
      s'.shared.nextConnID = s.shared.nextConnID := by
  have taken : ∀ {s₁ : ClientState} {start : Option (Agent.Client.Tid × List Agent.Client.Op)},
      Agent.Client.arrive s.shared .take = some (s₁, start) →
      (∃ pkt, s.shared.toServer.buf = pkt :: s₁.toServer.buf) ∧ s₁.log = s.shared.log ∧
        s₁.grpcClosed = s.shared.grpcClosed ∧ s₁.nextConnID = s.shared.nextConnID := by
    intro s₁ start harr
    simp only [Agent.Client.arrive] at harr
    split at harr
    · next pkt ch hch =>
        cases harr
        refine ⟨⟨pkt, ?_⟩, rfl, rfl, rfl⟩
        simp only [GoChan.recv] at hch
        repeat' split at hch
        all_goals cases hch
        next hbuf => exact hbuf
    · cases harr
  rcases System.step_cases h with ⟨t, c, o, rest, s₁, ops, heq, -, -, -⟩ |
    ⟨t, c, o, rest, s₁, ops, t', ops', heq, -, -, -⟩ | ⟨x, s₁, heq, harr, rfl⟩ |
    ⟨x, s₁, t, ops, heq, harr, ht, rfl⟩
  · cases heq
  · cases heq
  · cases heq
    exact taken harr
  · cases heq
    exact taken harr

/-- What the agent has sent, one of its goroutines had to say. -/
theorem agent_answers {xfrChannelSize fromServer toServer : Nat} {s : Agent.Client.State}
    (h : Reach client.step anyStep (newAgentClient xfrChannelSize fromServer toServer) s) :
    s.shared.nextConnID < 2 ^ 64 → ∀ pkt ∈ sentAll s.shared.log,
      ∃ (s₀ : ClientState) (caller : SendCaller), caller.Says s₀ pkt := by
  refine Reach.invariant (fun s => s.shared.nextConnID < 2 ^ 64 → ∀ pkt ∈ sentAll s.shared.log,
    ∃ (s₀ : ClientState) (caller : SendCaller), caller.Says s₀ pkt)
      (by intro _ pkt hpkt; cases hpkt) ?_ h
  intro s a s' hr hinv _ hst hlt pkt hpkt
  by_cases ha : a = .arrive .take
  · subst ha
    obtain ⟨-, hlog, -, hnext⟩ := client_take hst
    rw [hlog] at hpkt
    rw [hnext] at hlt
    exact hinv hlt pkt hpkt
  · obtain ⟨⟨more, -, hsent, hfrom⟩, -, hnext⟩ := client_stream hst ha
    have hold : s.shared.nextConnID < 2 ^ 64 := Nat.lt_of_le_of_lt hnext hlt
    rw [hsent] at hpkt
    rcases List.mem_append.mp hpkt with hpkt | hpkt
    · exact hinv hold pkt hpkt
    · obtain ⟨t, caller, begunClosed, hop⟩ := hfrom pkt hpkt
      obtain ⟨-, hknows⟩ := agent_said (System.reach_allowed hr) hold
      exact ⟨s.shared, caller, (hknows t _ hop).1⟩

end Agent

section Server

variable {cfg : ServerConfig} {b : BackendId}

theorem exec_stopped {s s₁ : ServerState} {t : Tid} {c : Choice} {op : Op} {ops : List Op}
    {start : Option (Tid × List Op)} (hex : exec cfg s t c op = some (s₁, ops, start)) :
    (s₁.backends b).stopped = (s.backends b).stopped := by
  cases op with
  | exitDispatcher b' =>
      simp only [exec] at hex
      cases hex
      by_cases hb : b = b'
      · subst hb
        simp
      · simp [Function.update_of_ne hb]
  | sendFrontend f pkt k =>
      simp only [exec] at hex
      split at hex
      · cases hex
        rfl
      · split at hex <;> cases hex
        next ok hsend => rw [sendFrontend_backends hsend]
  | addEstablished b' c' p =>
      simp only [exec] at hex
      cases hex
      split <;> rfl
  | _ =>
      simp only [exec] at hex
      repeat' split at hex
      all_goals cases hex
      all_goals rfl

theorem arrive_stopped {s s₁ : ServerState} {a : ServerAction} {start : Option (Tid × List Op)}
    (harr : arrive cfg s a = some (s₁, start)) (hne : ∀ eof, a ≠ .recvEnd b eof) :
    (s₁.backends b).stopped = (s.backends b).stopped := by
  have hset : ∀ {b' : BackendId} {x : BackendState}, (b' = b → x.stopped = (s.backends b).stopped) →
      (Function.update s.backends b' x b).stopped = (s.backends b).stopped := by
    intro b' x hx
    by_cases hb : b = b'
    · subst hb
      rw [Function.update_self]
      exact hx rfl
    · rw [Function.update_of_ne hb]
  cases a <;> simp only [arrive] at harr <;> repeat' split at harr
  all_goals cases harr
  all_goals first
    | rfl
    | (refine hset ?_; rintro rfl; first | rfl | exact absurd rfl (hne _))

/-- A step of the server that takes nothing from `recvCh`. -/
theorem server_stream {s s' : System.State ServerState Tid Op}
    {a : System.Action Tid ServerAction Choice} {ok : System.State ServerState Tid Op →
      System.Action Tid ServerAction Choice → Prop}
    (hr : Reach (server cfg).step ok newServer s) (h : (server cfg).step s a = some s')
    (hne : ∀ pkt, a ≠ .arrive (.deliver b pkt)) :
    received b s'.shared.log = received b s.shared.log ∧
      ((∀ eof, a ≠ .arrive (.recvEnd b eof)) →
        (s'.shared.backends b).stopped = (s.shared.backends b).stopped) := by
  obtain ⟨-, hP⟩ := server_origin (System.reach_allowed hr)
  rcases System.step_cases h with ⟨t, c, o, rest, s₁, ops, rfl, ht, hex, rfl⟩ |
    ⟨t, c, o, rest, s₁, ops, t', ops', rfl, ht, hex, rfl⟩ | ⟨x, s₁, rfl, harr, rfl⟩ |
    ⟨x, s₁, t, ops, rfl, harr, ht, rfl⟩
  · exact ⟨exec_received (hP t o (by rw [ht]; exact List.mem_cons_self)) hex,
      fun _ => exec_stopped hex⟩
  · exact ⟨exec_received (hP t o (by rw [ht]; exact List.mem_cons_self)) hex,
      fun _ => exec_stopped hex⟩
  · exact ⟨arrive_received harr fun pkt heq => hne pkt (by rw [heq]),
      fun hend => arrive_stopped harr fun eof heq => hend eof (by rw [heq])⟩
  · exact ⟨arrive_received harr fun pkt heq => hne pkt (by rw [heq]),
      fun hend => arrive_stopped harr fun eof heq => hend eof (by rw [heq])⟩

theorem server_deliver {s s' : System.State ServerState Tid Op} {pkt : Packet}
    (h : (server cfg).step s (.arrive (.deliver b pkt)) = some s') :
    received b s'.shared.log = received b s.shared.log ++ [pkt] ∧
      (s'.shared.backends b).stopped = (s.shared.backends b).stopped := by
  have taken : ∀ {s₁ : ServerState} {start : Option (Tid × List Op)},
      arrive cfg s.shared (.deliver b pkt) = some (s₁, start) →
      received b s₁.log = received b s.shared.log ++ [pkt] ∧
        (s₁.backends b).stopped = (s.shared.backends b).stopped := by
    intro s₁ start harr
    refine ⟨?_, arrive_stopped harr (by simp)⟩
    simp only [arrive] at harr
    repeat' split at harr
    all_goals cases harr
    all_goals simp [received_cons, Event.receives]
  rcases System.step_cases h with ⟨t, c, o, rest, s₁, ops, heq, -, -, -⟩ |
    ⟨t, c, o, rest, s₁, ops, t', ops', heq, -, -, -⟩ | ⟨x, s₁, heq, harr, rfl⟩ |
    ⟨x, s₁, t, ops, heq, harr, ht, rfl⟩
  · cases heq
  · cases heq
  · cases heq
    exact taken harr
  · cases heq
    exact taken harr

/-- The dispatcher drains `recvCh` only once the reader has stopped. -/
theorem server_draining {ok : System.State ServerState Tid Op →
      System.Action Tid ServerAction Choice → Prop} {s : System.State ServerState Tid Op}
    (h : Reach (server cfg).step ok newServer s) :
    (s.shared.backends b).draining = true → (s.shared.backends b).stopped = true := by
  refine Reach.invariant (fun s => (s.shared.backends b).draining = true →
    (s.shared.backends b).stopped = true) (by intro h; cases h) ?_ h
  intro s a s' _ hinv _ hst
  have arrives : ∀ {x : ServerAction} {s₁ : ServerState} {start : Option (Tid × List Op)},
      arrive cfg s.shared x = some (s₁, start) →
      (s₁.backends b).draining = true → (s₁.backends b).stopped = true := by
    intro x s₁ start harr hdrain
    by_cases hd : x = .drained b
    · subst hd
      rw [arrive_stopped harr (by simp)]
      simp only [arrive] at harr
      split at harr
      · next hcond => exact (Bool.and_eq_true_iff.mp hcond).1
      · cases harr
    · rw [arrive_draining harr hd] at hdrain
      by_cases he : ∃ eof, x = .recvEnd b eof
      · obtain ⟨eof, rfl⟩ := he
        simp only [arrive] at harr
        split at harr <;> cases harr
        simp [ServerState.setBackend]
      · rw [arrive_stopped harr fun eof heq => he ⟨eof, heq⟩]
        exact hinv hdrain
  rcases System.step_cases hst with ⟨t, c, o, rest, s₁, ops, rfl, ht, hex, rfl⟩ |
    ⟨t, c, o, rest, s₁, ops, t', ops', rfl, ht, hex, rfl⟩ | ⟨x, s₁, rfl, harr, rfl⟩ |
    ⟨x, s₁, t, ops, rfl, harr, ht, rfl⟩
  · intro hdrain
    rw [show (s₁.backends b).draining = _ from exec_draining hex b] at hdrain
    rw [show (s₁.backends b).stopped = _ from exec_stopped hex]
    exact hinv hdrain
  · intro hdrain
    rw [show (s₁.backends b).draining = _ from exec_draining hex b] at hdrain
    rw [show (s₁.backends b).stopped = _ from exec_stopped hex]
    exact hinv hdrain
  · exact arrives harr
  · exact arrives harr

end Server

/-! ## What is under way -/

/-- The stream and `recvCh` hold what the agent has sent and the dispatcher has
not taken, and the stream ends with the agent's connection. -/
structure Flow (b : BackendId) (s : State) : Prop where
  inOrder : received b s.server.shared.log ++ (s.recvCh.buf ++ s.agent.shared.toServer.buf) =
    sentAll s.agent.shared.log
  ended : (s.server.shared.backends b).stopped = true → s.agent.shared.grpcClosed = true

section Flow

variable {cfg : ServerConfig} {b : BackendId} {xfrChannelSize recvChSize fromServer toServer : Nat}
  {s : State}

theorem Flow.agent {ag : Agent.Client.State} {direct queued : Nat} (h : Flow b s)
    {a : System.Action Agent.Client.Tid ClientAction Agent.Client.Choice}
    (hst : client.step s.agent a = some ag) (hne : a ≠ .arrive .take) :
    Flow b { s with agent := ag, direct := direct, queued := queued } := by
  obtain ⟨⟨more, hbuf, hsent, -⟩, hclosed, -⟩ := client_stream hst hne
  refine ⟨?_, fun hstop => hclosed (h.ended hstop)⟩
  show received b s.server.shared.log ++ (s.recvCh.buf ++ ag.shared.toServer.buf) = _
  rw [hbuf, hsent, ← h.inOrder]
  simp only [List.append_assoc]

theorem reach_flow (h : Reach (step cfg b) (Faithful cfg)
    (new xfrChannelSize recvChSize fromServer toServer) s) : Flow b s := by
  refine Reach.invariant (Flow b) ⟨rfl, by intro h; cases h⟩ ?_ h
  intro s a s' hr hinv _ hst
  rcases step_cases hst with ⟨x, ag, -, hmay, hag, rfl⟩ | ⟨x, sv, -, hmay, hsv, rfl⟩ |
    ⟨pkt, ag, _, _, hag, rfl⟩ | ⟨pkt, rest, ag, ch, hbuf, hag, hch, rfl⟩ |
    ⟨pkt, sv, ch, hch, hsv, rfl⟩
  · refine hinv.agent hag ?_
    rintro rfl
    cases hmay
  · have hne : ∀ pkt, x ≠ .arrive (.deliver b pkt) := by
      rintro pkt rfl
      simp [serverMay] at hmay
    obtain ⟨hreceived, hstopped⟩ := server_stream (reach_server hr) hsv hne
    refine ⟨?_, fun hstop => ?_⟩
    · show received b sv.shared.log ++ _ = _
      rw [hreceived]
      exact hinv.inOrder
    · by_cases hend : ∃ eof, x = .arrive (.recvEnd b eof)
      · obtain ⟨eof, rfl⟩ := hend
        simpa [serverMay] using hmay
      · have hsame := hstopped fun eof heq => hend ⟨eof, heq⟩
        exact hinv.ended (hsame.symm.trans hstop)
  · exact hinv.agent hag (by simp)
  · obtain ⟨⟨pkt', hbuf'⟩, hlog, hgrpc, -⟩ := client_take hag
    obtain ⟨rfl, hrest⟩ : pkt = pkt' ∧ rest = ag.shared.toServer.buf := by
      rw [hbuf] at hbuf'
      exact List.cons.inj hbuf'
    refine ⟨?_, fun hstop => ?_⟩
    · show received b s.server.shared.log ++ (ch.buf ++ ag.shared.toServer.buf) =
          sentAll ag.shared.log
      rw [GoChan.send_buf hch, hlog, ← hinv.inOrder, hbuf, hrest]
      simp only [List.append_assoc, List.singleton_append]
    · show ag.shared.grpcClosed = true
      rw [hgrpc]
      exact hinv.ended hstop
  · obtain ⟨hreceived, hstopped⟩ := server_deliver hsv
    refine ⟨?_, fun hstop => ?_⟩
    · show received b sv.shared.log ++ (ch.buf ++ _) = _
      rw [hreceived, ← hinv.inOrder, GoChan.recv_buf hch]
      simp only [List.append_assoc, List.cons_append, List.nil_append]
    · rw [show (sv.shared.backends b).stopped = _ from hstopped] at hstop
      exact hinv.ended hstop

/-- While the agent keeps its connection, none of its `Send`s has failed. -/
theorem reach_sends {k : ConnID} (h : Reach (step cfg b) (Faithful cfg)
    (new xfrChannelSize recvChSize fromServer toServer) s)
      (hopen : s.agent.shared.grpcClosed = false) :
    Reach client.step (SendsData k)
      (newAgentClient xfrChannelSize fromServer toServer) s.agent := by
  refine Reach.invariant (fun s => s.agent.shared.grpcClosed = false →
    Reach client.step (SendsData k)
    (newAgentClient xfrChannelSize fromServer toServer) s.agent) (fun _ => .refl) ?_ h hopen
  intro s a s' _ hinv hok hst
  have earlier : ∀ {ag : Agent.Client.State}, (s.agent.shared.grpcClosed = true →
      ag.shared.grpcClosed = true) → ag.shared.grpcClosed = false →
        s.agent.shared.grpcClosed = false :=
    fun hmono hopen => Bool.eq_false_iff.mpr
      fun hclosed => by rw [hmono hclosed] at hopen; cases hopen
  rcases step_cases hst with ⟨x, ag, rfl, hmay, hag, rfl⟩ | ⟨x, sv, -, -, -, rfl⟩ |
    ⟨pkt, ag, _, _, hag, rfl⟩ | ⟨pkt, rest, ag, ch, -, hag, -, rfl⟩ | ⟨pkt, sv, ch, -, -, rfl⟩
  · intro hopen
    have hstill := earlier (client_stream hag (by rintro rfl; cases hmay)).closed hopen
    refine (hinv hstill).tail ?_ hag
    cases x with
    | arrive x => trivial
    | run t c =>
        intro o ho hsends
        obtain ⟨rest, ht⟩ : ∃ rest, s.agent.threads t = o :: rest := List.head?_eq_some_iff.mp ho
        have hdel : Delivers s.agent.shared t c o := hok o rest ht
        cases o with
        | streamSend pkt caller begunClosed =>
            rcases hdel rfl with hsend | hclosed
            · exact hsend
            · rw [hstill] at hclosed
              cases hclosed
        | _ => cases hsends
  · exact hinv
  · intro hopen
    refine (hinv (earlier (client_stream hag (by simp)).closed hopen)).tail ?_ hag
    trivial
  · intro hopen
    have hstill := earlier (fun hclosed => (client_take hag).2.2.1.trans hclosed) hopen
    refine (hinv hstill).tail ?_ hag
    trivial
  · exact hinv

end Flow

/-! ## What the frontend hears -/

/-- The `CLOSE_RSP` of the connection, or an answer of `Serve`, which does not know it. -/
def Closes (k : ConnID) (random : DialID) (pkt : Packet) : Prop :=
  pkt = closePkt k random ∨ pkt = unrecognized k.wire ∨ pkt = unknown k.wire

/-- A `DIAL_RSP`, then what was read, as far as it has come, then at most one
`CLOSE_RSP`; or nothing at all. -/
def Speech (k : ConnID) (random : DialID) (read : List Bytes) (pkts : List Packet) : Prop :=
  pkts = [] ∨ ∃ data close, pkts = dialRsp k random :: (data.map (dataPkt k) ++ close) ∧
  data <+: read ∧
    close.length ≤ 1 ∧ ∀ pkt ∈ close, Closes k random pkt

section Speech

variable {k : ConnID} {random : DialID} {data read : List Bytes} {opened closed : Bool}
  {pkts pkts' : List Packet} {pkt : Packet}

theorem Speech.beginning (h : Speech k random read pkts) (hpre : pkts' <+: pkts) :
    Speech k random read pkts' := by
  rcases h with rfl | ⟨data, close, rfl, hdata, hlen, hclose⟩
  · exact Or.inl (List.prefix_nil.mp hpre)
  · cases pkts' with
    | nil => exact Or.inl rfl
    | cons x l =>
        obtain ⟨rfl, hl⟩ := List.cons_prefix_cons.mp hpre
        refine Or.inr ⟨data.take l.length, close.take (l.length - data.length), ?_,
          (List.take_prefix _ _).trans hdata, ?_,
          fun pkt hpkt => hclose pkt (List.mem_of_mem_take hpkt)⟩
        · have htake := List.prefix_iff_eq_take.mp hl
          rw [List.take_append, ← List.map_take, List.length_map] at htake
          rw [← htake]
        · exact Nat.le_trans (List.length_take_le' _ _) hlen

theorem closePkt_ends (hw : k.wire ≠ 0) : (closePkt k random).isFor k.wire = true ∧
    (closePkt k random).ends k.wire = true := by
  rw [closePkt_eq hw]
  simp [Packet.ends, Packet.isFor, Packet.belongsTo, Packet.ofCloseResponse]

theorem Closes.ends (h : Closes k random pkt) (hw : k.wire ≠ 0) : pkt.ends k.wire = true := by
  rcases h with rfl | rfl | rfl
  · exact (closePkt_ends hw).2
  · simp [Packet.ends, Packet.isFor, Packet.belongsTo, unrecognized, Packet.ofCloseResponse]
  · simp [Packet.ends, Packet.isFor, Packet.belongsTo, unknown, Packet.ofCloseResponse]

/-- A `CLOSE_RSP` after what has no end. -/
theorem Speech.ended (h : Speech k random read pkts) (hne : pkts ≠ [])
    (hw : k.wire ≠ 0) (hopen : pkts.any (Packet.ends k.wire) = false) (hend : Closes k random pkt) :
    Speech k random read (pkts ++ [pkt]) := by
  rcases h with rfl | ⟨data, close, rfl, hdata, hlen, hclose⟩
  · exact absurd rfl hne
  · have hnil : close = [] := by
      refine List.eq_nil_iff_forall_not_mem.mpr fun x hx => ?_
      have hnot := List.any_eq_false.mp hopen x (by simp [hx])
      exact hnot ((hclose x hx).ends hw)
    subst hnil
    exact Or.inr ⟨data, [pkt], by simp, hdata, Nat.le_refl _, by simpa using hend⟩

theorem opens_dialRsp : (dialRsp k random).opens k.wire = true := by
  simp [Packet.opens, Packet.reportsConn, dialRsp, Packet.ofDialResponse]

theorem dataPkt_inside {b : Bytes} :
    (dataPkt k b).isFor k.wire = true ∧ (dataPkt k b).ends k.wire = false := by
  simp [Packet.ends, Packet.isFor, Packet.belongsTo, dataPkt, Packet.ofData]

theorem speech_transcript (hdata : data <+: read) :
    Speech k random read (transcript k random true data closed) := by
  refine Or.inr ⟨data, if closed then [closePkt k random] else [], by simp [transcript],
    hdata, ?_, ?_⟩
  · cases closed <;> simp
  · cases closed <;> simp [Closes]

theorem view_transcript (hw : k.wire ≠ 0) :
    (connWindow k.wire).view (transcript k random true data closed) =
      transcript k random true data closed := by
  have hopened : (connWindow k.wire).view (transcript k random true data false) =
      transcript k random true data false := by
    have hview : (connWindow k.wire).view (dialRsp k random :: data.map (dataPkt k)) =
        dialRsp k random :: data.map (dataPkt k) := by
      refine Window.view_inside opens_dialRsp fun x hx => ?_
      obtain ⟨b, -, rfl⟩ := List.mem_map.mp hx
      exact dataPkt_inside
    simpa [transcript] using hview
  cases closed with
  | false => exact hopened
  | true =>
      rw [← transcript_close, Window.view_snoc, hopened]
      refine Window.extend_inside (by simp [transcript]) ?_ (closePkt_ends hw).1
      rw [List.any_eq_false]
      intro x hx
      rw [Bool.not_eq_true]
      rcases List.mem_cons.mp (show x ∈ dialRsp k random :: data.map (dataPkt k) by
        simpa [transcript] using hx) with rfl | hx
      · exact (connWindow k.wire).opens_ends _ opens_dialRsp
      · obtain ⟨b, -, rfl⟩ := List.mem_map.mp hx
        exact (dataPkt_inside (k := k) (b := b)).2

/-- Without a `DIAL_RSP` there is no conversation. -/
theorem view_silent (hw : k.wire ≠ 0) :
    (connWindow k.wire).view (transcript k random false [] closed) = [] := by
  rw [Window.view_eq_nil]
  intro x hx
  cases closed with
  | false => cases hx
  | true =>
      obtain rfl : x = closePkt k random := by simpa [transcript] using hx
      rw [closePkt_eq hw]
      rfl

theorem opens_owns (hpkt : pkt.opens k.wire = true) : k.owns pkt = true := by
  obtain ⟨-, resp, hpay, herr, hconn⟩ := Packet.opens_type hpkt
  simp [ConnID.owns, hpay, herr, hconn]

/-- What `Serve` says about a connection it does not know can only end it. -/
theorem isFor_ends (howns : k.owns pkt = false) (hfor : pkt.isFor k.wire = true) :
    pkt.ends k.wire = true := by
  rw [Packet.ends, hfor, Bool.and_true]
  simp only [Packet.isFor, Packet.belongsTo] at hfor
  split at hfor
  · next m htype hpay =>
      simp only [ConnID.owns, hpay] at howns
      simp_all
  · next htype hpay => simp [htype]
  · cases hfor

/-- What is not the connection's own, one of the answers of `Serve` is. -/
theorem Closes.of_said {s₀ : ClientState} {caller : SendCaller} (hword : caller.Says s₀ pkt)
    (howns : k.owns pkt = false) (hfor : pkt.isFor k.wire = true) : Closes k random pkt := by
  simp only [Packet.isFor, beq_iff_eq] at hfor
  cases caller with
  | dialFailed k' =>
      obtain ⟨err, r, rfl⟩ := hword
      cases hfor
  | dialOk k' =>
      obtain rfl := hword
      cases hfor
  | cleanup k' c =>
      obtain rfl := hword
      by_cases hw : k'.wire = 0
      · rw [closePkt, if_pos hw] at hfor
        cases hfor
      · rw [closePkt_eq hw] at hfor howns
        have hwire : k'.wire = k.wire := Option.some.inj hfor
        simp [ConnID.owns, Packet.ofCloseResponse, hwire] at howns
  | data k' =>
      obtain ⟨b, rfl⟩ := hword
      have hwire : k'.wire = k.wire := Option.some.inj hfor
      simp [ConnID.owns, dataPkt, Packet.ofData, hwire] at howns
  | serve =>
      obtain ⟨id, rfl | rfl⟩ := hword
      · rw [show id = k.wire from Option.some.inj hfor]
        exact Or.inr (Or.inl rfl)
      · rw [show id = k.wire from Option.some.inj hfor]
        exact Or.inr (Or.inr rfl)
  | drain =>
      obtain rfl := hword
      cases hfor

end Speech

section Handed

variable {k : ConnID} {random : DialID} {data read : List Bytes} {opened closed : Bool}
  {pkts all : List Packet}

/-- The conversation in a part of the stream, as far as the connection's own
packets go. -/
theorem view_owned (hw : k.wire ≠ 0) (hopened : opened = false → data = [])
    (hpre : pkts <+: all) (hall : all.filter k.owns = transcript k random opened data closed) :
    (connWindow k.wire).view (pkts.filter k.owns) <+: transcript k random true data closed := by
  have hmono := Window.view_mono (w := connWindow k.wire) (hpre.filter k.owns)
  rw [hall] at hmono
  cases opened with
  | true =>
      rw [view_transcript hw] at hmono
      exact hmono
  | false =>
      rw [hopened rfl, view_silent hw] at hmono
      rw [List.prefix_nil.mp hmono]
      exact List.nil_prefix

theorem speech_view (hw : k.wire ≠ 0) (hopened : opened = false → data = []) (hdata : data <+: read)
    (hsaid : ∀ pkt ∈ all, ∃ (s₀ : ClientState) (caller : SendCaller), caller.Says s₀ pkt)
    (hpre : pkts <+: all) (hall : all.filter k.owns = transcript k random opened data closed) :
    Speech k random read ((connWindow k.wire).view pkts) := by
  have hown : Speech k random read ((connWindow k.wire).view (pkts.filter k.owns)) :=
    (speech_transcript hdata).beginning (view_owned hw hopened hpre hall)
  rcases Window.view_filter (w := connWindow k.wire) (p := k.owns) (fun _ => opens_owns)
    (fun _ => isFor_ends) pkts with heq | ⟨front, e, hview, hfront, hnot, hmem, hin⟩
  · rw [heq]
    exact hown
  · have hends := Window.view_ends (connWindow k.wire) pkts
    rw [hview, List.dropLast_concat] at hends
    rw [hview]
    obtain ⟨s₀, caller, hword⟩ := hsaid e (hpre.subset hmem)
    refine (hown.beginning hfront).ended ?_ hw hends (Closes.of_said hword hnot hin)
    rintro rfl
    have hopen := Window.view_head (w := connWindow k.wire) (l := pkts) (a := e)
        (by rw [hview]; rfl)
    rw [opens_owns hopen] at hnot
    cases hnot

theorem speech_heard (hw : k.wire ≠ 0) (hopened : opened = false → data = [])
    (hdata : data <+: read)
    (hsaid : ∀ pkt ∈ all, ∃ (s₀ : ClientState) (caller : SendCaller), caller.Says s₀ pkt)
    (hpre : pkts <+: all) (hall : all.filter k.owns = transcript k random opened data closed)
    (draining : Bool) : Speech k random read
      ((connWindow k.wire).view (pkts ++ if draining then [streamClosed k.wire] else [])) := by
  have hview := speech_view hw hopened hdata hsaid hpre hall
  cases draining with
  | false => simpa using hview
  | true =>
      rw [if_pos rfl, Window.view_snoc]
      rcases Window.extend_cases (connWindow k.wire) ((connWindow k.wire).view pkts)
        (streamClosed k.wire) with h | ⟨-, ho, -⟩ | ⟨hne, hends, hin, h⟩
      · rw [h]
        exact hview
      · cases ho
      · rw [h]
        exact hview.ended hne hw hends (Or.inl (closePkt_eq hw).symm)

/-- Where the connection's own `CLOSE_RSP` was heard, all it has said was. -/
theorem view_closed (hw : k.wire ≠ 0) (hopened : opened = false → data = [])
    (hpre : pkts <+: all) (hall : all.filter k.owns = transcript k random opened data closed)
    (hclosed : closePkt k random ∈ (connWindow k.wire).view pkts) :
    opened = true ∧ closed = true ∧
      (connWindow k.wire).view pkts = transcript k random true data true := by
  have hends : (connWindow k.wire).ends (closePkt k random) = true := (closePkt_ends hw).2
  have hview : (connWindow k.wire).view pkts = (connWindow k.wire).view (pkts.filter k.owns) := by
    rcases Window.view_filter (w := connWindow k.wire) (p := k.owns) (fun _ => opens_owns)
      (fun _ => isFor_ends) pkts with heq | ⟨front, e, hview, -, hnot, -, -⟩
    · exact heq
    · have hlast := Window.view_ends (connWindow k.wire) pkts
      rw [hview, List.dropLast_concat] at hlast
      rw [hview] at hclosed
      rcases List.mem_append.mp hclosed with hmem | hmem
      · exact absurd hends (by simpa using List.any_eq_false.mp hlast _ hmem)
      · rw [← List.mem_singleton.mp hmem, owns_closePkt hw] at hnot
        cases hnot
  rw [hview] at hclosed ⊢
  have hmono := Window.view_mono (w := connWindow k.wire) (hpre.filter k.owns)
  rw [hall] at hmono
  have hany : ((connWindow k.wire).view (pkts.filter k.owns)).any (connWindow k.wire).ends = true :=
    List.any_eq_true.mpr ⟨_, hclosed, hends⟩
  cases opened with
  | false =>
      rw [hopened rfl, view_silent hw] at hmono
      rw [List.prefix_nil.mp hmono] at hclosed
      cases hclosed
  | true =>
      have hwhole := Window.eq_view_of_end hmono hany
      rw [view_transcript hw] at hwhole
      rw [hwhole, closePkt_mem_transcript hw] at hclosed
      subst hclosed
      exact ⟨rfl, rfl, hwhole⟩

/-- The agent reports a connection once. -/
theorem opens_once (hw : k.wire ≠ 0) (hpre : pkts <+: all)
    (hall : all.filter k.owns = transcript k random opened data closed) :
    pkts.countP (Packet.opens k.wire) ≤ 1 := by
  have hown : all.countP (Packet.opens k.wire) =
      (all.filter k.owns).countP (Packet.opens k.wire) := by
    rw [List.countP_filter]
    refine List.countP_congr fun x _ => ?_
    constructor
    · intro hx
      simp [hx, opens_owns hx]
    · intro hx
      exact (Bool.and_eq_true_iff.mp hx).1
  have hdata : (data.map (dataPkt k)).countP (Packet.opens k.wire) = 0 := by
    refine List.countP_eq_zero.mpr fun x hx => ?_
    obtain ⟨b, -, rfl⟩ := List.mem_map.mp hx
    simp [Packet.opens, Packet.reportsConn, dataPkt, Packet.ofData]
  have hclose : (closePkt k random).opens k.wire = false := by
    rw [closePkt_eq hw]
    rfl
  refine Nat.le_trans hpre.sublist.countP_le ?_
  rw [hown, hall, transcript, List.countP_append, List.countP_append, hdata]
  cases opened <;> cases closed <;> simp [hclose, opens_dialRsp]

end Handed

/-! ## Result -/

/-- Whatever else goes on, a frontend hears of a connection a `DIAL_RSP`, then
what was read from the remote, in order and without gaps, then at most one
`CLOSE_RSP`; and where the remote has ended the connection and the agent is not
stopped, the connection's `CLOSE_RSP` comes after all that was read. -/
theorem remote_reaches_frontend {cfg : ServerConfig} {b : BackendId}
    {xfrChannelSize recvChSize fromServer toServer : Nat} {s : State}
    (h : Reach (step cfg b) (Faithful cfg) (new xfrChannelSize recvChSize fromServer toServer) s)
    (hlt : s.agent.shared.nextConnID < 2 ^ 64) {k : ConnID} (hpos : 0 < k) (hk : k < 2 ^ 64) :
    ∃ f pkts, handed b k.wire s.server.shared.log = (pkts.map fun pkt => (f, pkt)) ∧
      Speech k (s.agent.shared.econn k).random (chunks k s.agent.shared.log) pkts ∧
      (closePkt k (s.agent.shared.econn k).random ∈ pkts → .remoteEnded k ∈ s.agent.shared.log →
        s.agent.shared.grpcClosed = false →
        pkts = transcript k (s.agent.shared.econn k).random true
          (chunks k s.agent.shared.log) true) := by
  have hw := ConnID.wire_ne_zero hk hpos
  have hflow := reach_flow h
  have hagent := reach_agent h
  obtain ⟨hsaid, -⟩ := agent_said (System.reach_allowed hagent) hlt
  obtain ⟨opened, data, closed, hpackets, hopened, hdone⟩ := (hsaid k hpos hk).shape
  have hout : Outflow False k s.agent := agent_outflow hpos hk False.elim hagent hlt
  have hdata : sentData k s.agent.shared.log = data := by
    rw [sentData, hpackets, payloads_transcript]
  have hread : data <+: chunks k s.agent.shared.log := hdata ▸ hout.inv.sent_prefix
  have hpre : received b s.server.shared.log <+: sentAll s.agent.shared.log := ⟨_, hflow.inOrder⟩
  have hall := (packets_eq_filter k s.agent.shared.log).symm.trans hpackets
  have honce : (received b s.server.shared.log).countP (Packet.opens k.wire) ≤ 1 :=
    opens_once hw hpre hall
  obtain ⟨f, pkts, hhanded, hscript, -⟩ := server_forwarding hw (reach_server h) honce
  have hspeech := speech_heard hw (fun ho => (hopened ho).1) hread
    (agent_answers hagent hlt) hpre hall (s.server.shared.backends b).draining
  refine ⟨f, pkts, hhanded, hspeech.beginning hscript, fun hclose hended hlive => ?_⟩
  have hopen : (s.server.shared.backends b).draining = false := by
    rw [Bool.eq_false_iff]
    intro hdrain
    rw [hflow.ended (server_draining (reach_server h) hdrain)] at hlive
    cases hlive
  have hwhole : pkts = (connWindow k.wire).view (heard b k.wire s.server.shared) :=
    Window.eq_view_of_end hscript (List.any_eq_true.mpr ⟨_, hclose, (closePkt_ends hw).2⟩)
  rw [heard, hopen, if_neg (by simp), List.append_nil] at hwhole
  rw [hwhole] at hclose ⊢
  obtain ⟨rfl, rfl, hview⟩ := view_closed hw (fun ho => (hopened ho).1) hpre hall hclose
  rw [hview, ← hdata]
  rw [agent_sends_all hpos hk (reach_sends h hlive) hlt hended (hdone rfl).2.1]

/-- The frontend `x` asks for a connection, and the request reaches the agent. -/
def dialRun : List Action :=
  [.server (.arrive (.connect 0)), .server (.arrive (.openStream "x" none)),
    .server (.arrive (.receive "x" (.ofDialRequest ⟨"tcp", "h", 7⟩))),
    .server (.run (.proxy "x") { backend := some 0 }), .server (.run (.proxy "x") {}),
    .server (.run (.proxy "x") {}), .server (.run (.proxy "x") {}), .sendDirect]

/-- A packet goes from the stream to the dispatcher, which has `n` things to do about it. -/
def handOver (n : Nat) : List Action :=
  [.readBackendToChannel, .dispatch] ++ List.replicate n (.server (.run (.dispatcher 0) {}))

/-- The remote sends five bytes in two parts and ends the connection. -/
theorem remote_reaches_frontend_ended :
    let cfg : ServerConfig := ⟨fun _ => { id := "a" }, false⟩
    ∃ s : State, Reach (step cfg 0) (Faithful cfg) (new 2 4 4 8) s ∧
      handed 0 (ConnID.wire 1) s.server.shared.log =
        ((transcript 1 7 true [[1, 2], [3, 4, 5]] true).map fun pkt => (proxyFrontend "x", pkt)) ∧
      ∃ f pkts, handed 0 (ConnID.wire 1) s.server.shared.log = (pkts.map fun pkt => (f, pkt)) ∧
        Speech 1 (s.agent.shared.econn 1).random (chunks 1 s.agent.shared.log) pkts ∧
        (closePkt 1 (s.agent.shared.econn 1).random ∈ pkts → .remoteEnded 1 ∈ s.agent.shared.log →
          s.agent.shared.grpcClosed = false →
          pkts = transcript 1 (s.agent.shared.econn 1).random true
            (chunks 1 s.agent.shared.log) true) := by
  intro cfg
  let acts := dialRun ++ (endedRun.drop 1).map .agent ++ handOver 4 ++ handOver 2 ++
    handOver 2 ++ handOver 3
  obtain ⟨s, hs, hend⟩ : ∃ s : State, run (step cfg 0) (new 2 4 4 8) acts = some s ∧
      decide (s.agent.shared.nextConnID = 1 ∧ handed 0 (ConnID.wire 1) s.server.shared.log =
        ((transcript 1 7 true [[1, 2], [3, 4, 5]] true).map fun pkt => (proxyFrontend "x", pkt))) =
          true :=
    run_any (by decide)
  obtain ⟨hnext, hhanded⟩ := of_decide_eq_true hend
  have hreach : Reach (step cfg 0) (Faithful cfg) (new 2 4 4 8) s :=
    reach_of_run hs (by decide +kernel)
  exact ⟨s, hreach, hhanded, remote_reaches_frontend hreach (by rw [hnext]; decide) (by decide)
    (by decide)⟩

/-- The frontend sends data for a connection that is still being dialled. `Serve`
does not know the connection, and its answer is sent after the `DIAL_RSP`. -/
theorem frontend_told_unrecognized :
    let cfg : ServerConfig := ⟨fun _ => { id := "a" }, false⟩
    ∃ s : State, Reach (step cfg 0) (Faithful cfg) (new 2 4 4 8) s ∧
      s.agent.shared.nextConnID < 2 ^ 64 ∧ s.agent.shared.grpcClosed = false ∧
      handed 0 (ConnID.wire 1) s.server.shared.log =
        [(proxyFrontend "x", dialRsp 1 7), (proxyFrontend "x", unrecognized (ConnID.wire 1))] ∧
      ∀ f random opened data closed, handed 0 (ConnID.wire 1) s.server.shared.log ≠
        ((transcript 1 random opened data closed).map fun pkt => (f, pkt)) := by
  intro cfg
  let acts := dialRun ++ List.replicate 3 (.agent (.run .serve {})) ++
    [.server (.arrive (.receive "x" (.ofData ⟨1, "", [7]⟩))), .server (.run (.proxy "x") {}),
      .sendDirect] ++
    List.replicate 3 (.agent (.run .serve {})) ++ List.replicate 5 (.agent (.run (.dial 1) {})) ++
    List.replicate 2 (.agent (.run .serve {})) ++ handOver 4 ++ handOver 3
  obtain ⟨s, hs, hend⟩ : ∃ s : State, run (step cfg 0) (new 2 4 4 8) acts = some s ∧
      decide (s.agent.shared.nextConnID = 1 ∧ s.agent.shared.grpcClosed = false ∧
        handed 0 (ConnID.wire 1) s.server.shared.log =
          [(proxyFrontend "x", dialRsp 1 7), (proxyFrontend "x", unrecognized (ConnID.wire 1))]) =
            true :=
    run_any (by decide)
  obtain ⟨hnext, hlive, hhanded⟩ := of_decide_eq_true hend
  have hreach : Reach (step cfg 0) (Faithful cfg) (new 2 4 4 8) s := reach_of_run hs (by decide)
  refine ⟨s, hreach, by rw [hnext]; decide, hlive, hhanded,
    fun f random opened data closed heq => ?_⟩
  have hmem : (proxyFrontend "x", unrecognized (ConnID.wire 1)) ∈
      (transcript 1 random opened data closed).map fun pkt => (f, pkt) := by
    rw [← heq, hhanded]
    simp
  obtain ⟨pkt, hpkt, hpair⟩ := List.mem_map.mp hmem
  obtain rfl : pkt = unrecognized (ConnID.wire 1) := congrArg Prod.snd hpair
  have hw : ConnID.wire 1 ≠ 0 := by decide
  rw [transcript, closePkt_eq hw] at hpkt
  cases opened <;> cases closed <;>
    simp [unrecognized, dialRsp, dataPkt, Packet.ofDialResponse, Packet.ofData,
      Packet.ofCloseResponse] at hpkt

end Link

end Konnectivity
