import Konnectivity.Proofs.DialOnce
import Konnectivity.Proofs.Sequence

/-!
# Tunnel isolation

`established` is keyed by agent ID and connection ID, while connection IDs are
numbered per agent stream. Two streams of one agent ID share the keys, and a
dispatcher that finds an entry under its key does not look at whose it is. The
runs in which no dispatcher comes upon an entry of another stream are the ones
in which the tunnels stay apart; in the others they need not.
-/

namespace Konnectivity

open Lib

/-! ## Agents that answer their own dials -/

/-- An agent answers only dials that were given to its stream. The `DIAL_REQ`
may reach the agent although `Send` has not returned, so a dial counts as
given from the moment its backend is chosen. -/
def HonestAgent (s : ServerState) : ServerAction → Prop
  | .deliver b pkt => ∀ r, pkt.answersDial = some r → ∃ f, .dialing f b r ∈ s.log
  | _ => True

/-- Dial IDs are distinct and agents are honest. -/
def HonestDials (s : ServerState) (a : ServerAction) : Prop :=
  DistinctDials s a ∧ HonestAgent s a

/-- The event gives the dial to the backend. -/
def Event.gives (b : BackendId) (r : DialID) : Event → Bool
  | .dialing _ b' r' => b' == b && r' == r
  | _ => false

theorem dialing_iff_gives {log : List Event} {b : BackendId} {r : DialID} :
    (∃ f, .dialing f b r ∈ log) ↔ (log.any (Event.gives b r)) = true := by
  rw [List.any_eq_true]
  constructor
  · rintro ⟨f, hd⟩
    exact ⟨_, hd, by simp [Event.gives]⟩
  · rintro ⟨e, he, hg⟩
    cases e with
    | dialing f b' r' =>
        simp only [Event.gives, Bool.and_eq_true, beq_iff_eq] at hg
        obtain ⟨rfl, rfl⟩ := hg
        exact ⟨f, he⟩
    | _ => cases hg

instance HonestAgent.decidable (s : ServerState) : ∀ a, Decidable (HonestAgent s a)
  | .deliver b pkt =>
      match hr : pkt.answersDial with
      | none => isTrue fun r hr' => by rw [hr] at hr'; cases hr'
      | some r =>
          decidable_of_iff ((s.log.any (Event.gives b r)) = true)
            ⟨fun h r' hr' => by rw [hr] at hr'; cases hr'; exact dialing_iff_gives.mpr h,
              fun h => dialing_iff_gives.mp (h r hr)⟩
  | .connect _ => isTrue trivial
  | .recvEnd _ _ => isTrue trivial
  | .drained _ => isTrue trivial
  | .disconnect _ => isTrue trivial
  | .ctxDone _ => isTrue trivial
  | .openStream _ _ => isTrue trivial
  | .receive _ _ => isTrue trivial
  | .shutdown _ => isTrue trivial
  | .dial _ _ _ _ _ => isTrue trivial
  | .userClose _ => isTrue trivial
  | .watchClose _ => isTrue trivial

instance HonestDials.decidable (s : ServerState) (a : ServerAction) :
    Decidable (HonestDials s a) :=
  inferInstanceAs (Decidable (DistinctDials s a ∧ HonestAgent s a))

/-- What the agents said, in terms of the history. -/
def HonestLog (log : List Event) : Prop :=
  ∀ b pkt r, .fromBackend b pkt ∈ log → pkt.answersDial = some r → ∃ f, .dialing f b r ∈ log

section Honest

variable {cfg : ServerConfig} {okExec : ServerState → Tid → Choice → Op → Prop}
  {okArrive : ServerState → ServerAction → Prop} {s : System.State ServerState Tid Op}

theorem server_honest (hhonest : ∀ s a, okArrive s a → HonestAgent s a)
    (h : Reach (server cfg).step (System.Allowed okExec okArrive) newServer s) :
    HonestLog s.shared.log := by
  refine (System.invariant (fun s => HonestLog s.log) (fun _ _ _ => True) ?_ ?_ ?_ ?_ h).1
  · exact fun b pkt r hp => nomatch hp
  · exact fun t o ho => trivial
  · intro s a s₁ start hr hG hok harr
    have hsub := (arrive_origin (server_origin hr).1 harr).2.1
    refine ⟨fun b pkt r hp hans => ?_, fun _ _ h => h, ?_⟩
    · rcases arrive_fromBackend harr hp with hp | rfl
      · obtain ⟨f, hd⟩ := hG b pkt r hp hans
        exact ⟨f, hsub hd⟩
      · obtain ⟨f, hd⟩ := hhonest _ _ hok r hans
        exact ⟨f, hsub hd⟩
    · cases start <;> simp [System.StartOk]
  · intro s t c o rest s₁ ops start hr hG ht _ _ hex
    have hop := (server_origin hr).2 t o (by rw [ht]; exact List.mem_cons_self)
    have hsub := (exec_origin (server_origin hr).1 hop hex).2.1
    refine ⟨fun b pkt r hp hans => ?_, fun _ _ h => h, fun _ _ => trivial, ?_⟩
    · rcases exec_event hop hex hp with hp | hadd
      · obtain ⟨f, hd⟩ := hG b pkt r hp hans
        exact ⟨f, hsub hd⟩
      · cases o <;> simp [Op.Adds] at hadd
    · cases start <;> simp [System.StartOk]

end Honest

theorem Packet.answersDial_of_reports {pkt : Packet} {r : DialID} {c : ConnectID}
    (h : pkt.reportsConn = some (r, c)) : pkt.answersDial = some r := by
  unfold Packet.reportsConn at h
  unfold Packet.answersDial
  split at h
  · next m htype hpay =>
      split at h
      · cases h
        simp [htype, hpay]
      · cases h
  · cases h

/-- The connection of an entry was reported on the stream its dial was given to. -/
theorem reported_backend {log : List Event} (hh : HonestLog log) {b b' : BackendId}
    {f : Frontend} {r : DialID} {c : ConnectID}
    (hback : ∀ f f' b b' r, .dialing f b r ∈ log → .dialing f' b' r ∈ log → b = b')
    (hd : .dialing f b r ∈ log) (hr : Reported log b' r c) : b' = b := by
  obtain ⟨pkt, hp, hrep⟩ := hr
  obtain ⟨f', hd'⟩ := hh b' pkt r hp (Packet.answersDial_of_reports hrep)
  exact hback f' f b' b r hd' hd

/-! ## The property and when it holds -/

/-- What the dispatchers have done so far keeps the tunnels apart: a packet of
a connection went to the frontend whose dial was given to the stream and
answered there with that connection ID, and no dispatcher took away or
replaced an entry of another stream. -/
structure Isolated (log : List Event) : Prop where
  handed : ∀ b f pkt ok c, .toFrontend (.dispatcher b) f pkt ok ∈ log →
    pkt.belongsTo = some c → ∃ r, .dialing f b r ∈ log ∧ Reported log b r c
  kept : ∀ b a c p, .removed (.dispatcher b) a c p ∈ log ∨
    .overwritten (.dispatcher b) a c p ∈ log → p.backend = some b

/-- The entry under the key of the stream and the connection ID, if there is
one, was made for a dial of the stream. -/
def OwnKey (cfg : ServerConfig) (s : ServerState) (b : BackendId) (c : ConnectID) : Prop :=
  ∀ p, s.established.getFrontend (cfg.agentID b) c = some p → p.backend = some b

/-- The stream and the connection ID under which a dispatcher reads or writes
`established`. -/
def Op.key (t : Tid) (op : Op) : Option (BackendId × ConnectID) :=
  match t, op with
  | .dispatcher b, .addEstablished _ c _ => some (b, c)
  | .dispatcher b, .getFrontend _ c _ => some (b, c)
  | .dispatcher b, .removeEstablished _ c _ => some (b, c)
  | _, _ => none

/-- No dispatcher comes upon an entry of another stream. -/
def NoCollision (cfg : ServerConfig) (s : ServerState) (t : Tid) (_ : Choice) (op : Op) : Prop :=
  ∀ b c, op.key t = some (b, c) → OwnKey cfg s b c

instance OwnKey.decidable (cfg : ServerConfig) (s : ServerState) (b : BackendId)
    (c : ConnectID) : Decidable (OwnKey cfg s b c) :=
  match hp : s.established.getFrontend (cfg.agentID b) c with
  | none => isTrue fun p hp' => by rw [hp] at hp'; cases hp'
  | some p =>
      decidable_of_iff (p.backend = some b)
        ⟨fun h p' hp' => by rw [hp] at hp'; cases hp'; exact h, fun h => h p hp⟩

instance NoCollision.decidable (cfg : ServerConfig) (s : ServerState) (t : Tid) (c : Choice)
    (op : Op) : Decidable (NoCollision cfg s t c op) :=
  match hk : op.key t with
  | none => isTrue fun b c' hk' => by rw [hk] at hk'; cases hk'
  | some (b, c') =>
      decidable_of_iff (OwnKey cfg s b c')
        ⟨fun h b' c'' hk' => by rw [hk] at hk'; cases hk'; exact h, fun h => h b c' hk⟩

/-- The frontend of an operation that hands over a packet of a connection. -/
def HandsOwn (log : List Event) (t : Tid) (op : Op) : Prop :=
  ∀ b f pkt k c, t = .dispatcher b → op = .sendFrontend (some f) pkt k →
    pkt.belongsTo = some c → ∃ r, .dialing f b r ∈ log ∧ Reported log b r c

section Step

variable {cfg : ServerConfig} {s s₁ : ServerState} {t : Tid} {c : Choice} {op : Op}
  {ops : List Op} {start : Option (Tid × List Op)}

theorem Packet.belongsTo_of_answers {pkt : Packet} {r : DialID} (h : pkt.answersDial = some r) :
    pkt.belongsTo = none := by
  unfold Packet.answersDial at h
  unfold Packet.belongsTo
  split at h
  · next htype hpay => simp [htype]
  · next htype hpay => simp [htype]
  · cases h

theorem HandsOwn.mono {log log' : List Event} (hsub : log ⊆ log') (h : HandsOwn log t op) :
    HandsOwn log' t op := by
  intro b f pkt k c ht hop hc
  obtain ⟨r, hd, hr⟩ := h b f pkt k c ht hop hc
  exact ⟨r, hsub hd, hr.mono hsub⟩

/-- The frontend of an entry of stream `b` dialed over `b`, and the agent
answered there with the connection ID of the entry. -/
theorem entry_own (hG : SharedOrigin cfg s) (hh : HonestLog s.log)
    (hback : ∀ f f' b b' r, .dialing f b r ∈ s.log → .dialing f' b' r ∈ s.log → b = b')
    {a : AgentID} {cid : ConnectID} {p : ProxyClientConnection} {b : BackendId}
    (hp : s.established.getFrontend a cid = some p) (hb : p.backend = some b) :
    ∃ f, p.frontend = some f ∧ .dialing f b p.dialID ∈ s.log ∧
      Reported s.log b p.dialID cid := by
  obtain ⟨-, -, ⟨f, b₁, hf, hb₁, hd⟩, b₂, -, hr⟩ := hG.established a cid p hp
  rw [hb] at hb₁
  cases hb₁
  have heq := reported_backend hh hback hd hr
  subst heq
  exact ⟨f, hf, hd, hr⟩

theorem exec_hands (hG : SharedOrigin cfg s) (hh : HonestLog s.log)
    (hback : ∀ f f' b b' r, .dialing f b r ∈ s.log → .dialing f' b' r ∈ s.log → b = b')
    (hop : op.Origin cfg s.log t) (hok : NoCollision cfg s t c op)
    (hex : exec cfg s t c op = some (s₁, ops, start)) : ∀ o ∈ ops, HandsOwn s.log t o := by
  intro o ho b f pkt k cid ht heq hc
  subst heq ht
  -- The packet of an own entry is handed to the frontend of the entry.
  have own : ∀ {a : AgentID} {p : ProxyClientConnection},
      s.established.getFrontend a cid = some p → p.backend = some b → some f = p.frontend →
      ∃ r, .dialing f b r ∈ s.log ∧ Reported s.log b r cid := by
    intro a p hp hb hf
    obtain ⟨f', hf', hd, hr⟩ := entry_own hG hh hback hp hb
    rw [← hf] at hf'
    cases hf'
    exact ⟨p.dialID, hd, hr⟩
  rcases exec_sends hop hex ho with ⟨r, hans, -⟩ | ⟨b', c', p, rfl, hget, hf⟩ |
    ⟨a, c', p, rfl, hget, hf⟩ | ⟨b', c', p, rfl, hget, hb, hf, hpkt⟩ | ⟨b', pkt', f', c', rfl, hf⟩
  · rw [Packet.belongsTo_of_answers hans] at hc
    cases hc
  · obtain ⟨heq, -, -, hc'⟩ := hop
    cases heq
    rw [hc] at hc'
    cases hc'
    exact own hget (hok b cid rfl p hget) hf
  · obtain ⟨b', heq, rfl, -, -, hc'⟩ := hop
    cases heq
    rw [hc] at hc'
    cases hc'
    exact own hget (hok b cid rfl p hget) hf
  · cases hop
    have hcid := (hG.established _ _ p hget).2.1
    have hcc : cid = c' := by
      rw [hpkt, hcid] at hc
      cases hc
      rfl
    subst hcc
    exact own hget hb hf
  · -- The handler of a frontend, not a dispatcher.
    obtain ⟨b'', -, htid, hstream, -⟩ := hop
    rw [Frontend.tid, hstream] at htid
    cases htid

end Step

/-- One operation of a dispatcher that comes upon no entry of another stream. -/
theorem Isolated.exec {cfg : ServerConfig} {s s₁ : ServerState} {t : Tid} {c : Choice} {op : Op}
    {ops : List Op} {start : Option (Tid × List Op)} (h : Isolated s.log)
    (hG : SharedOrigin cfg s) (hop : op.Origin cfg s.log t) (hown : HandsOwn s.log t op)
    (hok : NoCollision cfg s t c op)
    (hex : exec cfg s t c op = some (s₁, ops, start)) : Isolated s₁.log := by
  have hsub := (exec_origin hG hop hex).2.1
  refine ⟨fun b f pkt ok cid he hc => ?_, fun b a cid p he => ?_⟩
  · rcases exec_event hop hex he with he | hadd
    · obtain ⟨r, hd, hr⟩ := h.handed b f pkt ok cid he hc
      exact ⟨r, hsub hd, hr.mono hsub⟩
    · cases op with
      | sendFrontend f' pkt' k =>
          obtain ⟨f₁, ok₁, rfl, heq⟩ := hadd
          cases heq
          obtain ⟨r, hd, hr⟩ := hown b f pkt k cid rfl rfl hc
          exact ⟨r, hsub hd, hr.mono hsub⟩
      | _ => simp [Op.Adds] at hadd
  · have hold : (.removed (.dispatcher b) a cid p ∈ s.log ∨
        .overwritten (.dispatcher b) a cid p ∈ s.log) ∨
        op.Adds cfg s t (.removed (.dispatcher b) a cid p) ∨
        op.Adds cfg s t (.overwritten (.dispatcher b) a cid p) := by
      rcases he with he | he
      · rcases exec_event hop hex he with he | hadd
        · exact Or.inl (Or.inl he)
        · exact Or.inr (Or.inl hadd)
      · rcases exec_event hop hex he with he | hadd
        · exact Or.inl (Or.inr he)
        · exact Or.inr (Or.inr hadd)
    rcases hold with hold | hadd
    · exact h.kept b a cid p hold
    · cases op with
      | addEstablished b' cid' p' =>
          simp only [Op.Adds, reduceCtorEq, false_or, and_false, exists_false,
            Event.overwritten.injEq, or_false] at hadd
          obtain ⟨old, hget, rfl, rfl, rfl, rfl⟩ := hadd
          obtain ⟨hb, -⟩ := hop
          cases hb
          exact hok b cid rfl p hget
      | removeEstablished a' cid' k =>
          simp only [Op.Adds, reduceCtorEq, and_false, exists_false, Event.removed.injEq,
            or_false] at hadd
          obtain ⟨p', hget, rfl, rfl, rfl, rfl⟩ := hadd
          refine hok b cid rfl p ?_
          cases k with
          | undo b' r =>
              obtain ⟨hb, ha, -⟩ := hop
              cases hb
              rw [← ha]
              exact hget
          | closeRsp pkt =>
              obtain ⟨b', hb, ha, -⟩ := hop
              cases hb
              rw [← ha]
              exact hget
          | closeConn b' r =>
              obtain ⟨hb, -⟩ := hop
              rcases hb with hb | hb | hb <;> cases hb
      | removeEstablishedForBackendConn b' =>
          cases (hop : t = .dispatcher b')
          simp only [Op.Adds, reduceCtorEq, false_or, and_false, exists_false, Event.removed.injEq,
            or_false] at hadd
          obtain ⟨cid', p', hget, hb, heq, -, -, rfl⟩ := hadd
          cases heq
          exact hb
      | removeEstablishedForStream u =>
          rw [hop.1] at hadd
          simp [Op.Adds] at hadd
      | _ => simp [Op.Adds] at hadd

/-- Over any run in which dial IDs are distinct, agents answer only their own
dials and no dispatcher comes upon an entry of another stream under its key,
the tunnels stay apart. -/
theorem tunnels_isolated {cfg : ServerConfig} {s : System.State ServerState Tid Op}
    (h : Reach (server cfg).step (System.Allowed (NoCollision cfg) HonestDials) newServer s) :
    Isolated s.shared.log := by
  refine (System.invariant (fun s => Isolated s.log) (fun s t o => HandsOwn s.log t o)
    ?_ ?_ ?_ ?_ h).1
  · refine ⟨(fun b f pkt ok c he => nomatch he), fun b a c p he => ?_⟩
    rcases he with he | he <;> cases he
  · exact fun t o ho => nomatch ho
  · intro s a s₁ start hr hI _ harr
    have hsub := (arrive_origin (server_origin hr).1 harr).2.1
    refine ⟨⟨fun b f pkt ok c he hc => ?_, fun b a c p he => ?_⟩, fun t o h => h.mono hsub, ?_⟩
    · obtain ⟨r, hd, hrep⟩ := hI.handed b f pkt ok c
        ((arrive_event harr he).resolve_right (by simp [Event.arrives])) hc
      exact ⟨r, hsub hd, hrep.mono hsub⟩
    · refine hI.kept b a c p (he.imp (fun he => ?_) fun he => ?_)
      · exact (arrive_event harr he).resolve_right (by simp [Event.arrives])
      · exact (arrive_event harr he).resolve_right (by simp [Event.arrives])
    · cases start with
      | none => trivial
      | some st =>
          obtain ⟨t, ops⟩ := st
          intro o ho b f pkt k c ht heq
          subst ht heq
          rcases arrive_dispatcher harr with ⟨pkt', -, hops | ⟨-, rfl⟩⟩ | ⟨-, rfl⟩
          · rcases serveRecvBackend_cases hops with rfl | ⟨_, -, -, rfl⟩ | ⟨_, -, -, rfl⟩ |
              ⟨_, -, -, rfl⟩ | ⟨_, -, -, rfl⟩ <;> simp at ho
          · cases ho
          · simp at ho
  · intro s t c o rest s₁ ops start hr hI ht hown hok hex
    obtain ⟨hG, hP⟩ := server_origin hr
    have hop := hP t o (by rw [ht]; exact List.mem_cons_self)
    have hc := server_custody (fun _ _ h => h.1) hr
    have hh := server_honest (fun _ _ h => h.2) hr
    have hsub := (exec_origin hG hop hex).2.1
    refine ⟨hI.exec hG hop hown hok hex, fun t o h => h.mono hsub,
      fun o ho => (exec_hands hG hh hc.backend hop hok hex o ho).mono hsub, ?_⟩
    rcases exec_start hex with rfl | ⟨r, b, f, rfl⟩
    · trivial
    · intro o ho b' f' pkt k cid ht'
      cases ht'

/-- Two streams of agent `a` with a connection each, numbered 1 and 2. -/
theorem tunnels_isolated_distinct :
    let cfg : ServerConfig := ⟨fun _ => { id := "a" }, false⟩
    let data := Packet.ofData ⟨1, "", [7]⟩
    ∃ s : System.State ServerState Tid Op,
      Reach (server cfg).step (System.Allowed (NoCollision cfg) HonestDials) newServer s ∧
        .toFrontend (.dispatcher 0) (proxyFrontend "x") data true ∈ s.shared.log ∧
        Isolated s.shared.log := by
  intro cfg data
  let dialReq := fun r : DialID => Packet.ofDialRequest ⟨"tcp", "h", r⟩
  let acts : List (System.Action Tid ServerAction Choice) :=
    [.arrive (.connect 0), .arrive (.connect 1), .arrive (.openStream "x" none),
      .arrive (.openStream "y" none),
      .arrive (.receive "x" (dialReq 10)), .run (.proxy "x") { backend := some 0 },
      .run (.proxy "x") {}, .run (.proxy "x") {}, .run (.proxy "x") {},
      .arrive (.receive "y" (dialReq 11)), .run (.proxy "y") { backend := some 1 },
      .run (.proxy "y") {}, .run (.proxy "y") {}, .run (.proxy "y") {},
      .arrive (.deliver 0 (.ofDialResponse ⟨"", 1, 10⟩)), .run (.dispatcher 0) {},
      .run (.dispatcher 0) {}, .run (.dispatcher 0) {}, .run (.dispatcher 0) {},
      .arrive (.deliver 1 (.ofDialResponse ⟨"", 2, 11⟩)), .run (.dispatcher 1) {},
      .run (.dispatcher 1) {}, .run (.dispatcher 1) {}, .run (.dispatcher 1) {},
      .arrive (.deliver 0 data), .run (.dispatcher 0) {}, .run (.dispatcher 0) {}]
  have hrun : ∃ s, run (server cfg).step newServer acts = some s ∧
      .toFrontend (.dispatcher 0) (proxyFrontend "x") data true ∈ s.shared.log :=
    ⟨_, rfl, by decide⟩
  obtain ⟨s, hs, hmem⟩ := hrun
  have hreach : Reach (server cfg).step (System.Allowed (NoCollision cfg) HonestDials)
      newServer s := reach_of_run hs (by decide)
  exact ⟨s, hreach, hmem, tunnels_isolated hreach⟩

/-- Two streams of agent `a` that both number their first connection 1: the
second replaces the entry of the first, and what the first agent stream sends
on its connection goes to the frontend of the second. -/
theorem tunnels_not_isolated :
    let cfg : ServerConfig := ⟨fun _ => { id := "a" }, false⟩
    let data := Packet.ofData ⟨1, "", [7]⟩
    ∃ s : System.State ServerState Tid Op,
      Reach (server cfg).step (System.Allowed (fun _ _ _ _ => True) HonestDials) newServer s ∧
        .toFrontend (.dispatcher 0) (proxyFrontend "y") data true ∈ s.shared.log ∧
        (∀ r, .dialing (proxyFrontend "y") 0 r ∉ s.shared.log) ∧
        ¬ Isolated s.shared.log := by
  intro cfg data
  let dialReq := fun r : DialID => Packet.ofDialRequest ⟨"tcp", "h", r⟩
  let dialed := fun e : Event =>
    match e with
    | .dialing f b _ => f == proxyFrontend "y" && b == 0
    | _ => false
  let acts : List (System.Action Tid ServerAction Choice) :=
    [.arrive (.connect 0), .arrive (.connect 1), .arrive (.openStream "x" none),
      .arrive (.openStream "y" none),
      .arrive (.receive "x" (dialReq 10)), .run (.proxy "x") { backend := some 0 },
      .run (.proxy "x") {}, .run (.proxy "x") {}, .run (.proxy "x") {},
      .arrive (.receive "y" (dialReq 11)), .run (.proxy "y") { backend := some 1 },
      .run (.proxy "y") {}, .run (.proxy "y") {}, .run (.proxy "y") {},
      .arrive (.deliver 0 (.ofDialResponse ⟨"", 1, 10⟩)), .run (.dispatcher 0) {},
      .run (.dispatcher 0) {}, .run (.dispatcher 0) {}, .run (.dispatcher 0) {},
      .arrive (.deliver 1 (.ofDialResponse ⟨"", 1, 11⟩)), .run (.dispatcher 1) {},
      .run (.dispatcher 1) {}, .run (.dispatcher 1) {}, .run (.dispatcher 1) {},
      .arrive (.deliver 0 data), .run (.dispatcher 0) {}, .run (.dispatcher 0) {}]
  have hrun : ∃ s, run (server cfg).step newServer acts = some s ∧
      .toFrontend (.dispatcher 0) (proxyFrontend "y") data true ∈ s.shared.log ∧
      s.shared.log.any dialed = false := ⟨_, rfl, by decide, by decide⟩
  obtain ⟨s, hs, hmem, hover⟩ := hrun
  have hnone : ∀ r, .dialing (proxyFrontend "y") 0 r ∉ s.shared.log := by
    intro r hd
    have : dialed (.dialing (proxyFrontend "y") 0 r) = true := by simp [dialed]
    exact absurd this (List.any_eq_false.mp hover _ hd)
  refine ⟨s, reach_of_run hs (by decide), hmem, hnone, fun h => ?_⟩
  obtain ⟨r, hd, -⟩ := h.handed 0 _ data true 1 hmem rfl
  exact hnone r hd

end Konnectivity
