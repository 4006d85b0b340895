import Konnectivity.Proofs.Isolation

/-!
# Connections that agents reported and nobody closed

A connection is live from the `DIAL_RSP` that reports it until a `CLOSE_REQ`
for it is handed to its stream, the agent says `CLOSE_RSP`, or its stream is
torn down. As long as every operation that takes an entry away under its key
finds the entry of its own connection, somebody looks after each live
connection: the handler of the `DIAL_RSP`, then the entry in `established`,
then a `CLOSE_REQ` that is about to be sent.
-/

namespace Konnectivity

open Lib

/-! ## Live connections -/

/-- The event reports the connection. -/
def Event.reports (b : BackendId) (r : DialID) (c : ConnectID) : Event → Bool
  | .fromBackend b' pkt => b' == b && pkt.reportsConn == some (r, c)
  | _ => false

/-- A `CLOSE_REQ` for the connection is handed to its stream. -/
def Event.requestsClose (b : BackendId) (c : ConnectID) : Event → Bool
  | .toBackend _ b' pkt _ => b' == b && pkt == .newCloseRequest c
  | .queued _ b' pkt => b' == b && pkt == .newCloseRequest c
  | _ => false

/-- The agent closes the connection, or its stream is torn down. -/
def Event.endsConn (b : BackendId) (c : ConnectID) : Event → Bool
  | .fromBackend b' pkt => b' == b && pkt.type == .closeRsp && pkt.belongsTo == some c
  | .closedEstablished b' => b' == b
  | _ => false

def Event.closes (b : BackendId) (c : ConnectID) (e : Event) : Bool :=
  e.requestsClose b c || e.endsConn b c

/-- The connection was reported and has not been closed since. -/
def Live (b : BackendId) (r : DialID) (c : ConnectID) : List Event → Prop
  | [] => False
  | e :: log => e.reports b r c = true ∨ (e.closes b c = false ∧ Live b r c log)

theorem Live.reported {b : BackendId} {r : DialID} {c : ConnectID} {log : List Event}
    (h : Live b r c log) : Reported log b r c := by
  induction log with
  | nil => exact h.elim
  | cons e log ih =>
      rcases h with h | ⟨-, h⟩
      · cases e with
        | fromBackend b' pkt =>
            simp only [Event.reports, Bool.and_eq_true, beq_iff_eq] at h
            exact ⟨pkt, by rw [h.1]; exact List.mem_cons_self, h.2⟩
        | _ => cases h
      · exact (ih h).mono (List.subset_cons_self e log)

/-- Events that report nothing keep a connection live if they do not close it. -/
theorem live_append {b : BackendId} {r : DialID} {c : ConnectID} {es log : List Event}
    (hes : ∀ e ∈ es, e.reports b r c = false) (h : Live b r c (es ++ log)) :
    (∀ e ∈ es, e.closes b c = false) ∧ Live b r c log := by
  induction es with
  | nil => exact ⟨(fun e he => nomatch he), h⟩
  | cons e es ih =>
      rcases h with h | ⟨hc, h⟩
      · rw [hes e List.mem_cons_self] at h
        cases h
      · obtain ⟨h1, h2⟩ := ih (fun x hx => hes x (List.mem_cons_of_mem _ hx)) h
        refine ⟨fun x hx => ?_, h2⟩
        rcases List.mem_cons.mp hx with rfl | hx
        · exact hc
        · exact h1 x hx

/-- After every report of the connection it was closed, by a `CLOSE_REQ` or from
the other side. -/
def Closed (log : List Event) (b : BackendId) (r : DialID) (c : ConnectID) : Prop :=
  ∀ later e earlier, log = later ++ e :: earlier → e.reports b r c = true →
    (∃ e' ∈ later, e'.requestsClose b c = true) ∨ ∃ e' ∈ later, e'.endsConn b c = true

theorem closed_of_not_live {b : BackendId} {r : DialID} {c : ConnectID} {log : List Event}
    (h : ¬ Live b r c log) : Closed log b r c := by
  intro later e earlier hlog he
  suffices hex : ∃ e' ∈ later, e'.closes b c = true by
    obtain ⟨e', he', hc⟩ := hex
    rcases Bool.or_eq_true _ _ ▸ hc with hc | hc
    · exact Or.inl ⟨e', he', hc⟩
    · exact Or.inr ⟨e', he', hc⟩
  subst hlog
  induction later with
  | nil => exact absurd (Or.inl he) h
  | cons x later ih =>
      by_cases hx : x.closes b c = true
      · exact ⟨x, List.mem_cons_self, hx⟩
      · obtain ⟨e', he', hc⟩ := ih fun hl => h (Or.inr ⟨by simpa using hx, hl⟩)
        exact ⟨e', List.mem_cons_of_mem _ he', hc⟩

/-! ## Operations that find their own entry -/

/-- The operation enters a connection under a key that is free, or the entry it
takes away is the one of its own connection. -/
def Op.findsOwn (cfg : ServerConfig) (s : ServerState) (t : Tid) : Op → Bool
  | .addEstablished b c _ => (s.established.getFrontend (cfg.agentID b) c).isNone
  | .removeEstablished a c (.undo _ r) =>
      (s.established.getFrontend a c).all fun p => p.dialID == r
  | .removeEstablished a c (.closeConn _ r) =>
      (s.established.getFrontend a c).all fun p => p.dialID == r
  | .removeEstablished a c (.closeRsp _) =>
      (s.established.getFrontend a c).all fun p => (p.backend.map Tid.dispatcher) == some t
  | _ => true

/-- Every operation on `established` finds its own entry. -/
def FindsOwn (cfg : ServerConfig) (s : ServerState) (t : Tid) (_ : Choice) (op : Op) : Prop :=
  op.findsOwn cfg s t = true

/-! ## Who looks after a live connection -/

/-- The handler of the `DIAL_RSP`, before the connection is established. -/
def Op.establishes (b : BackendId) (r : DialID) (c : ConnectID) : Op → Prop
  | .pendingRemove r' (.dialRsp b' resp _) =>
      r' = r ∧ b' = b ∧ resp.connectID = c ∧ resp.error = ""
  | .addEstablished b' c' p => b' = b ∧ c' = c ∧ p.dialID = r
  | _ => False

/-- A `CLOSE_REQ` that is about to be sent or queued. -/
def Op.closesConn (b : BackendId) (c : ConnectID) : Op → Prop
  | .sendBackend b' pkt _ => b' = some b ∧ pkt = .newCloseRequest c
  | .queueSend b' pkt => b' = b ∧ pkt = .newCloseRequest c
  | _ => False

/-- The goroutines that close connections of a dial: the dispatcher, the handler
of the frontend, and the callers of `Close`, who use the send queue. -/
def ClosesFor (log : List Event) (b : BackendId) (r : DialID) (t : Tid) (op : Op) : Prop :=
  t = .dispatcher b ∨ (∃ f, HasDial log f r ∧ t = .proxy f.streamUID) ∨
    (t.closes r ∧ ∃ b' pkt, op = .queueSend b' pkt)

def Tracked (cfg : ServerConfig) (s : System.State ServerState Tid Op) (b : BackendId)
    (r : DialID) (c : ConnectID) : Prop :=
  (∃ o ∈ s.threads (.dispatcher b), o.establishes b r c) ∨
    (∃ p, s.shared.established.getFrontend (cfg.agentID b) c = some p ∧ p.dialID = r) ∨
    ∃ t, ∃ o ∈ s.threads t, ClosesFor s.shared.log b r t o ∧ o.closesConn b c

structure LiveInv (cfg : ServerConfig) (s : System.State ServerState Tid Op) : Prop where
  tracked : ∀ b r c, c ≠ 0 → Live b r c s.shared.log → Tracked cfg s b r c
  -- The dispatcher takes no report before it is done with a `CLOSE_RSP`.
  closing : ∀ b a c pkt, .removeEstablished a c (.closeRsp pkt) ∈ s.threads (.dispatcher b) →
    ∀ r, ¬ Live b r c s.shared.log

section Steps

variable {cfg : ServerConfig} {s : System.State ServerState Tid Op} {s₁ : ServerState} {t : Tid}
  {c : Choice} {op : Op} {ops rest : List Op} {start : Option (Tid × List Op)}

theorem ClosesFor.mono {log log' : List Event} (hsub : log ⊆ log') {b : BackendId} {r : DialID}
    (h : ClosesFor log b r t op) : ClosesFor log' b r t op := by
  rcases h with h | ⟨f, hf, ht⟩ | h
  · exact Or.inl h
  · exact Or.inr (Or.inl ⟨f, hf.mono hsub, ht⟩)
  · exact Or.inr (Or.inr h)

/-- An operation reports nothing, and a connection that is live after it was
not closed by it. -/
theorem exec_live {s : ServerState} (hop : op.Origin cfg s.log t)
    (hex : exec cfg s t c op = some (s₁, ops, start)) {b : BackendId} {r : DialID}
    {cid : ConnectID} (h : Live b r cid s₁.log) :
    Live b r cid s.log ∧ ∀ e es, s₁.log = es ++ e :: s.log → e.closes b cid = false := by
  obtain ⟨es, hlog, hes⟩ := exec_adds hop hex
  have hquiet : ∀ e ∈ es, e.reports b r cid = false := by
    intro e he
    have hadd := hes e he
    cases e with
    | fromBackend b' pkt => cases op <;> simp [Op.Adds] at hadd
    | _ => rfl
  rw [hlog] at h ⊢
  obtain ⟨h1, h2⟩ := live_append hquiet h
  refine ⟨h2, fun e es' heq => h1 e ?_⟩
  rw [List.append_cons, List.append_left_inj] at heq
  rw [heq]
  exact List.mem_append_right _ (List.mem_singleton.mpr rfl)

/-- The entry of a live connection was made for a dial over its stream. -/
theorem live_backend {s : ServerState} (hG : SharedOrigin cfg s) (hh : HonestLog s.log)
    (hback : ∀ f f' b b' r, .dialing f b r ∈ s.log → .dialing f' b' r ∈ s.log → b = b')
    {b : BackendId} {r : DialID} {cid : ConnectID} {a : AgentID} {p : ProxyClientConnection}
    (hlive : Live b r cid s.log) (hp : s.established.getFrontend a cid = some p)
    (hr : p.dialID = r) : p.backend = some b := by
  obtain ⟨-, -, ⟨f, b', -, hb, hd⟩, -⟩ := hG.established a cid p hp
  rw [hr] at hd
  rw [hb, reported_backend hh hback hd hlive.reported]

/-- The handler of the `DIAL_RSP` performs an operation. -/
theorem establishes_exec {s : ServerState} (hop : op.Origin cfg s.log t)
    (hpd : ∀ p, s.pendingDial.pendingDial.lookup r = some p → p.dialID = r)
    (hex : exec cfg s t c op = some (s₁, ops, start)) {b : BackendId}
    {cid : ConnectID} (hcid : cid ≠ 0) (h : op.establishes b r cid) :
    (∃ o ∈ ops, o.establishes b r cid) ∨
      (∃ p, s₁.established.getFrontend (cfg.agentID b) cid = some p ∧ p.dialID = r) ∨
      ∃ o ∈ ops, o.closesConn b cid := by
  cases op with
  | pendingRemove r' k =>
      cases k with
      | dialRsp b' resp pkt =>
          obtain ⟨rfl, rfl, rfl, herr⟩ := h
          simp only [exec] at hex
          cases hex
          rw [PendingDialManager.remove_fst]
          cases hp : s.pendingDial.pendingDial.lookup r' with
          | none =>
              refine Or.inr (Or.inr ⟨sendBackendClose (some b') resp.connectID, ?_, rfl, rfl⟩)
              simp [AfterRemove.next, hcid]
          | some p =>
              refine Or.inl ⟨.addEstablished b' resp.connectID
                { p with connectID := resp.connectID, agentID := cfg.agentID b' }, ?_, rfl, rfl,
                hpd p hp⟩
              simp [AfterRemove.next, herr]
      | _ => exact h.elim
  | addEstablished b' c' p =>
      obtain ⟨rfl, rfl, hr⟩ := h
      refine Or.inr (Or.inl ⟨p, ?_, hr⟩)
      rw [exec_established hop hex]
      simp [Op.entryAfter]
  | _ => exact h.elim

/-- The entry of a live connection stays, or what takes it away closes the
connection. -/
theorem entry_exec (hinv : LiveInv cfg s) (hG : SharedOrigin cfg s.shared)
    (hh : HonestLog s.shared.log)
    (hback : ∀ f f' b b' r, .dialing f b r ∈ s.shared.log → .dialing f' b' r ∈ s.shared.log →
      b = b')
    (hop : op.Origin cfg s.shared.log t) (ht : s.threads t = op :: rest)
    (hown : FindsOwn cfg s.shared t c op)
    (hex : exec cfg s.shared t c op = some (s₁, ops, start)) {b : BackendId} {r : DialID}
    {cid : ConnectID} {p : ProxyClientConnection} (hlive : Live b r cid s₁.log)
    (hp : s.shared.established.getFrontend (cfg.agentID b) cid = some p) (hr : p.dialID = r) :
    s₁.established.getFrontend (cfg.agentID b) cid = some p ∨
      ∃ o ∈ ops, ClosesFor s.shared.log b r t o ∧ o.closesConn b cid := by
  obtain ⟨hold, hnot⟩ := exec_live hop hex hlive
  have hpb : p.backend = some b := live_backend hG hh hback hold hp hr
  obtain ⟨-, hconn, ⟨f, b₀, hf, hb₀, hd⟩, -⟩ := hG.established _ _ p hp
  rw [hpb] at hb₀
  cases hb₀
  rw [hr] at hd
  rw [exec_established hop hex]
  cases op with
  | addEstablished b' c' p' =>
      refine Or.inl ?_
      simp only [Op.entryAfter]
      split
      · next hkey =>
          simp only [FindsOwn, Op.findsOwn, ← hkey.1, ← hkey.2, hp] at hown
          cases hown
      · exact hp
  | removeEstablished a c' k =>
      simp only [Op.entryAfter]
      split
      · next hkey =>
          obtain ⟨rfl, rfl⟩ := hkey
          have hops : ops = k.next cid (some p) := by
            simp only [exec, Established.remove_fst, hp] at hex
            cases hex
            rfl
          refine Or.inr ?_
          cases k with
          | undo b' r' =>
              simp only [FindsOwn, Op.findsOwn, hp, Option.all_some, beq_iff_eq] at hown
              obtain ⟨rfl, -, hrep⟩ := hop
              have hrr : r' = r := by rw [← hown, hr]
              subst hrr
              have hbb := reported_backend hh hback hd hrep
              subst hbb
              refine ⟨sendBackendClose (some b') cid, ?_, Or.inl rfl, rfl, rfl⟩
              rw [hops]
              simp [AfterEstablished.next]
          | closeRsp pkt =>
              simp only [FindsOwn, Op.findsOwn, hp, Option.all_some, hpb, Option.map_some,
                beq_iff_eq, Option.some.injEq] at hown
              subst hown
              exact absurd hold (hinv.closing b _ _ pkt (by rw [ht]; exact List.mem_cons_self) r)
          | closeConn b' r' =>
              simp only [FindsOwn, Op.findsOwn, hp, Option.all_some, beq_iff_eq] at hown
              obtain ⟨hcl, -, f', -, hd'⟩ := hop
              have hrr : r' = r := by rw [← hown, hr]
              subst hrr
              have hbb := hback f' f b' b r' hd' hd
              subst hbb
              refine ⟨.queueSend b' (.newCloseRequest cid), ?_,
                Or.inr (Or.inr ⟨hcl, _, _, rfl⟩), rfl, rfl⟩
              rw [hops]
              simp [AfterEstablished.next]
      · exact Or.inl hp
  | removeEstablishedForBackendConn b' =>
      refine Or.inl ?_
      simp only [Op.entryAfter]
      split
      · by_cases hb : b' = b
        · -- The stream of the connection is torn down, which closes it.
          subst hb
          have hlog : ∃ es, s₁.log = es ++ Event.closedEstablished b' :: s.shared.log := by
            simp only [exec] at hex
            split at hex
            · cases hex
              exact ⟨[], rfl⟩
            · split at hex <;> cases hex
              exact ⟨_, rfl⟩
          obtain ⟨es, hlog⟩ := hlog
          have := hnot _ es hlog
          simp [Event.closes, Event.requestsClose, Event.endsConn] at this
        · rw [hp]
          simp [Option.filter, hpb, Ne.symm hb]
      · exact hp
  | removeEstablishedForStream u =>
      simp only [Op.entryAfter, hp]
      cases hu : p.ofStream u with
      | false => exact Or.inl (by simp [Option.filter, hu])
      | true =>
          refine Or.inr ?_
          obtain ⟨rfl, hne⟩ := hop
          have huf : u = f.streamUID := by
            simp only [ProxyClientConnection.ofStream, hf] at hu
            exact (of_decide_eq_true hu).symm
          subst huf
          simp only [exec] at hex
          split at hex <;> cases hex
          next hperm =>
            have hmem : p ∈ c.order := by
              rw [hperm.mem_iff, Established.mem_removeForStream hne]
              exact ⟨_, _, hp, hu⟩
            refine ⟨sendBackendClose p.backend p.connectID, ?_,
              Or.inr (Or.inl ⟨f, Or.inr ⟨b, hd⟩, rfl⟩), hpb, by rw [hconn]⟩
            exact List.mem_flatMap.mpr ⟨p, hmem, by simp⟩
  | _ => exact Or.inl hp

/-- The `CLOSE_REQ` of a connection closes it. -/
theorem closesConn_exec {s : ServerState} (hop : op.Origin cfg s.log t)
    (hex : exec cfg s t c op = some (s₁, ops, start)) {b : BackendId} {r : DialID}
    {cid : ConnectID} (h : op.closesConn b cid) : ¬ Live b r cid s₁.log := by
  intro hlive
  obtain ⟨-, hnot⟩ := exec_live hop hex hlive
  cases op with
  | sendBackend b' pkt k =>
      obtain ⟨rfl, rfl⟩ := h
      simp only [exec] at hex
      split at hex <;> cases hex
      have := hnot _ [] rfl
      simp [Event.closes, Event.requestsClose, Event.endsConn] at this
  | queueSend b' pkt =>
      obtain ⟨rfl, rfl⟩ := h
      simp only [exec] at hex
      cases hex
      have := hnot _ [] rfl
      simp [Event.closes, Event.requestsClose, Event.endsConn] at this
  | _ => exact h.elim

theorem LiveInv.exec (h : LiveInv cfg s) (hG : SharedOrigin cfg s.shared)
    (hh : HonestLog s.shared.log)
    (hback : ∀ f f' b b' r, .dialing f b r ∈ s.shared.log → .dialing f' b' r ∈ s.shared.log →
      b = b')
    (hP : Pool.All (fun t o => o.Origin cfg s.shared.log t) s.threads)
    (ht : s.threads t = op :: rest) (hown : FindsOwn cfg s.shared t c op)
    (hex : exec cfg s.shared t c op = some (s₁, ops, start)) :
    LiveInv cfg ⟨s₁, Function.update s.threads t (ops ++ rest)⟩ := by
  have hop := hP t op (by rw [ht]; exact List.mem_cons_self)
  have hsub := (exec_origin hG hop hex).2.1
  have hpushed : ∀ o ∈ ops, o ∈ Function.update s.threads t (ops ++ rest) t := by
    intro o ho
    rw [Function.update_self]
    exact List.mem_append_left _ ho
  refine ⟨fun b r cid hcid hlive => ?_, fun b a cid pkt ho r hlive => ?_⟩
  · have hold := (exec_live hop hex hlive).1
    rcases h.tracked b r cid hcid hold with ⟨o, ho, he⟩ | ⟨p, hp, hr⟩ | ⟨t', o, ho, hcl, hc⟩
    · rcases Pool.mem_push ho ht with ⟨rfl, rfl⟩ | ho
      · rcases establishes_exec hop (fun p hp => (hG.pending r p hp).1) hex hcid he with
          ⟨o', ho', he'⟩ | hentry | ⟨o', ho', hc'⟩
        · exact Or.inl ⟨o', hpushed o' ho', he'⟩
        · exact Or.inr (Or.inl hentry)
        · exact Or.inr (Or.inr ⟨_, o', hpushed o' ho', Or.inl rfl, hc'⟩)
      · exact Or.inl ⟨o, ho, he⟩
    · rcases entry_exec h hG hh hback hop ht hown hex hlive hp hr with hp | ⟨o, ho, hcl, hc⟩
      · exact Or.inr (Or.inl ⟨p, hp, hr⟩)
      · exact Or.inr (Or.inr ⟨t, o, hpushed o ho, hcl.mono hsub, hc⟩)
    · rcases Pool.mem_push ho ht with ⟨-, rfl⟩ | ho
      · exact absurd hlive (closesConn_exec hop hex hc)
      · exact Or.inr (Or.inr ⟨t', o, ho, hcl.mono hsub, hc⟩)
  · rcases Pool.mem_of_push ht ho with ⟨-, ho⟩ | ho
    · exact nomatch exec_inner hex _ ho
    · exact h.closing b a cid pkt ho r (exec_live hop hex hlive).1

theorem LiveInv.arrive (h : LiveInv cfg s) (hG : SharedOrigin cfg s.shared) {a : ServerAction}
    (harr : arrive cfg s.shared a = some (s₁, start)) {threads : Tid → List Op}
    (hthreads : Pool.Arrived s.threads start threads) : LiveInv cfg ⟨s₁, threads⟩ := by
  have hsub := (arrive_origin hG harr).2.1
  have hest := (arrive_adds harr).2.1
  have hold : ∀ {b r cid}, cid ≠ 0 → Live b r cid s.shared.log →
      Tracked cfg ⟨s₁, threads⟩ b r cid := by
    intro b r cid hcid hlive
    rcases h.tracked b r cid hcid hlive with ⟨o, ho, he⟩ | ⟨p, hp, hr⟩ | ⟨t, o, ho, hcl, hc⟩
    · exact Or.inl ⟨o, hthreads.mem ho, he⟩
    · exact Or.inr (Or.inl ⟨p, by dsimp only; rw [hest]; exact hp, hr⟩)
    · exact Or.inr (Or.inr ⟨t, o, hthreads.mem ho, hcl.mono hsub, hc⟩)
  refine ⟨fun b r cid hcid hlive => ?_, fun b a' cid pkt ho r hlive => ?_⟩
  · dsimp only at hlive
    rcases arrive_new harr with hlog | ⟨b', pkt, rfl, hlog⟩ | ⟨e, hlog, hne⟩
    · exact hold hcid (hlog ▸ hlive)
    · rw [hlog] at hlive
      rcases hlive with hrep | ⟨-, hlive⟩
      · -- The dispatcher begins to handle the report.
        simp only [Event.reports, Bool.and_eq_true, beq_iff_eq] at hrep
        obtain ⟨rfl, hrep⟩ := hrep
        obtain ⟨ops, rfl, -, hops⟩ := arrive_deliver harr
        obtain ⟨resp, hc, herr, hserve⟩ := @serveRecvBackend_report cfg b' pkt r cid hrep
        rw [hserve] at hops
        rcases hops with hops | ⟨hnone, -⟩
        · cases hops
          refine Or.inl ⟨.pendingRemove r (.dialRsp b' resp pkt), ?_, rfl, rfl, hc, herr⟩
          dsimp only
          rw [hthreads.started]
          exact List.mem_singleton.mpr rfl
        · cases hnone
      · exact hold hcid hlive
    · rw [hlog] at hlive
      rcases hlive with hrep | ⟨-, hlive⟩
      · cases e with
        | fromBackend b' pkt => exact absurd rfl (hne b' pkt)
        | _ => cases hrep
      · exact hold hcid hlive
  · dsimp only at ho hlive
    rcases arrive_new harr with hlog | ⟨b', pkt', rfl, hlog⟩ | ⟨e, hlog, hne⟩
    · rw [hlog] at hlive
      rcases hthreads.of_mem ho with ho | ⟨ops, rfl, ho⟩
      · exact h.closing b a' cid pkt ho r hlive
      · rcases arrive_dispatcher harr with ⟨pkt', rfl, -⟩ | ⟨-, rfl⟩
        · obtain ⟨-, -, hlog', -⟩ := arrive_deliver harr
          rw [hlog] at hlog'
          exact absurd hlog' (List.cons_ne_self _ _).symm
        · simp at ho
    · obtain ⟨ops, rfl, -, hops⟩ := arrive_deliver harr
      rw [hlog] at hlive
      by_cases hb : b' = b
      · subst hb
        rw [hthreads.started] at ho
        rcases hops with hops | ⟨-, rfl⟩
        · rcases serveRecvBackend_cases hops with rfl | ⟨_, -, -, rfl⟩ | ⟨_, -, -, rfl⟩ |
            ⟨_, -, -, rfl⟩ | ⟨cid', htype, hbel, rfl⟩
          all_goals simp at ho
          -- The `CLOSE_RSP` itself is the last thing the stream delivered.
          obtain ⟨-, rfl, rfl⟩ := ho
          rcases hlive with hrep | ⟨hcl, -⟩
          · simp [Event.reports, Packet.reportsConn, htype] at hrep
          · simp [Event.closes, Event.endsConn, htype, hbel] at hcl
        · cases ho
      · rcases hlive with hrep | ⟨-, hlive⟩
        · simp [Event.reports, hb] at hrep
        · rcases hthreads.of_mem ho with ho | ⟨ops', hst, ho⟩
          · exact h.closing b a' cid pkt ho r hlive
          · cases hst
            exact absurd rfl hb
    · rw [hlog] at hlive
      have hlive : Live b r cid s.shared.log := by
        rcases hlive with hrep | ⟨-, hlive⟩
        · cases e with
          | fromBackend b' pkt => exact absurd rfl (hne b' pkt)
          | _ => cases hrep
        · exact hlive
      rcases hthreads.of_mem ho with ho | ⟨ops, rfl, ho⟩
      · exact h.closing b a' cid pkt ho r hlive
      · rcases arrive_dispatcher harr with ⟨pkt', rfl, -⟩ | ⟨-, rfl⟩
        · obtain ⟨-, -, hlog', -⟩ := arrive_deliver harr
          rw [hlog] at hlog'
          cases hlog'
          exact absurd rfl (hne b pkt')
        · simp at ho

end Steps

/-- In the runs in which every operation on `established` finds its own entry,
somebody looks after each live connection. -/
theorem server_live {cfg : ServerConfig} {okExec : ServerState → Tid → Choice → Op → Prop}
    {okArrive : ServerState → ServerAction → Prop} {s : System.State ServerState Tid Op}
    (hexec : ∀ s t c op, okExec s t c op → FindsOwn cfg s t c op)
    (harrive : ∀ s a, okArrive s a → HonestDials s a)
    (h : Reach (server cfg).step (System.Allowed okExec okArrive) newServer s) :
    LiveInv cfg s := by
  refine server_invariant (LiveInv cfg) ?_ ?_ ?_ ?_ h
  · exact ⟨(fun b r c _ hl => hl.elim), (fun b a c pkt ho => nomatch ho)⟩
  · intro s t c op rest s₁ ops start hr hinv _ ht hok hex
    obtain ⟨hG, hP⟩ := server_origin hr
    have hc := server_custody (fun s a h => (harrive s a h).1) hr
    have hh := server_honest (fun s a h => (harrive s a h).2) hr
    exact hinv.exec hG hh hc.backend hP ht (hexec _ _ _ _ hok) hex
  · intro s r b f hinv
    refine { hinv with tracked := fun b' r' c hc hl => ?_ }
    rcases hinv.tracked b' r' c hc hl with ho | hp | ⟨t, o, ho, hcl, hcc⟩
    · exact Or.inl ho
    · exact Or.inr (Or.inl hp)
    · exact Or.inr (Or.inr ⟨t, o, mem_timer_of_mem ho, hcl, hcc⟩)
  · intro s a s₁ start threads hr hinv _ _ harr hthreads
    exact hinv.arrive (server_origin hr).1 harr hthreads

theorem Tid.closes_unique {t : Tid} {r r' : DialID} (h : t.closes r) (h' : t.closes r') :
    r = r' := by
  rcases h with rfl | rfl | rfl <;> rcases h' with h' | h' | h' <;> cases h' <;> rfl

/-- A `CLOSE_REQ` is queued on behalf of an in-process dial, inside `Close`. -/
theorem closer_finishing {cfg : ServerConfig} {s : System.State ServerState Tid Op}
    (hP : Pool.All (fun t o => o.Origin cfg s.shared.log t) s.threads)
    (hthen : ∀ t, Pool.Each Op.Then (s.threads t)) {t : Tid} {r : DialID} {o : Op}
    {b : BackendId} {c : ConnectID} (ht : t.closes r) (ho : o ∈ s.threads t)
    (hqueue : ∃ b' pkt, o = .queueSend b' pkt) (hc : o.closesConn b c) :
    .closeFinish r ∈ s.threads t ∧ ConnDialed s.shared.log r := by
  obtain ⟨b', pkt, rfl⟩ := hqueue
  obtain ⟨-, rfl⟩ := hc
  obtain ⟨pre, post, heq, hfin⟩ := (hthen t).mem ho
  obtain ⟨r', tail, rfl, -⟩ := hfin rfl
  have hmem : .closeFinish r' ∈ s.threads t := by
    rw [heq]
    simp
  obtain ⟨ht', hconn⟩ := hP t _ hmem
  obtain rfl := Tid.closes_unique ht ht'
  exact ⟨hmem, hconn⟩

end Konnectivity
