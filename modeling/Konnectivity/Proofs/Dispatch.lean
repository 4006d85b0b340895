import Konnectivity.Lib.Window
import Konnectivity.Proofs.Sequence

/-!
# What the dispatcher makes of an agent stream

The dispatcher of an agent stream takes one packet at a time, and so the
packets of a connection reach the frontend in the order in which they were
received: from the `DIAL_RSP` that enters the connection in `established` to the
first `CLOSE_RSP`, after which the entry is gone. When the stream ends the
dispatcher makes up a `CLOSE_RSP` of its own for what is still entered; the end
of the stream is a `CLOSE_RSP` for every connection, as it were.

The entry may be taken away at any time by the handler of the frontend or by
`Close`, and a `Send` may fail. Then the rest is not handed over, and what was
is a prefix of what should have been. For that a `Send` that has failed must not
be followed by one that succeeds, and no dispatcher may come upon an entry that
the dispatcher of another stream has made. How the dial IDs are drawn and whom
the agents answer does not matter.
-/

namespace Konnectivity

open Lib

/-! ## The packets of a connection -/

/-- A `DIAL_RSP` that reports the connection. -/
def Packet.opens (c : ConnectID) (pkt : Packet) : Bool := pkt.reportsConn.map Prod.snd == some c

/-- A `DATA` or a `CLOSE_RSP` of the connection. -/
def Packet.isFor (c : ConnectID) (pkt : Packet) : Bool := pkt.belongsTo == some c

def Packet.ends (c : ConnectID) (pkt : Packet) : Bool := pkt.type == .closeRsp && pkt.isFor c

def Packet.concerns (c : ConnectID) (pkt : Packet) : Bool := pkt.opens c || pkt.isFor c

theorem Packet.opens_type {c : ConnectID} {pkt : Packet} (h : pkt.opens c = true) :
    pkt.type = .dialRsp ∧ ∃ resp, pkt.payload = some (.dialResponse resp) ∧ resp.error = "" ∧
      resp.connectID = c := by
  simp only [Packet.opens, Packet.reportsConn] at h
  split at h
  · next m htype hpay =>
      split at h
      · next herr =>
          refine ⟨htype, m, hpay, herr, ?_⟩
          simpa using h
      · cases h
  · cases h

theorem Packet.isFor_type {c : ConnectID} {pkt : Packet} (h : pkt.isFor c = true) :
    pkt.type = .data ∨ pkt.type = .closeRsp := by
  simp only [Packet.isFor, Packet.belongsTo] at h
  split at h
  · next htype hpay => exact Or.inl htype
  · next htype hpay => exact Or.inr htype
  · cases h

theorem Packet.not_isFor {c c' : ConnectID} {pkt : Packet} (h : pkt.opens c = true) :
    pkt.isFor c' = false := by
  rw [Bool.eq_false_iff]
  intro hfor
  rcases Packet.isFor_type hfor with ht | ht <;> rw [(Packet.opens_type h).1] at ht <;> cases ht

/-- The conversation about a connection: from the `DIAL_RSP` to the first `CLOSE_RSP`. -/
def connWindow (c : ConnectID) : Window Packet where
  opens := Packet.opens c
  inside := Packet.isFor c
  ends := Packet.ends c
  opens_ends := fun pkt h => by simp [Packet.ends, Packet.not_isFor h]

/-- The `CLOSE_RSP` of `removeEstablishedForBackendConn`. -/
def streamClosed (c : ConnectID) : Packet := .ofCloseResponse ⟨"", c⟩

theorem streamClosed_isFor (c c' : ConnectID) : (streamClosed c).isFor c' = decide (c = c') := by
  simp [streamClosed, Packet.isFor, Packet.belongsTo, Packet.ofCloseResponse, beq_eq_decide]

/-! ## Reading the history -/

def Event.receives (b : BackendId) : Event → List Packet
  | .fromBackend b' pkt => if b' = b then [pkt] else []
  | _ => []

/-- What the dispatcher has taken from `recvCh`, oldest first. -/
def received (b : BackendId) (log : List Event) : List Packet :=
  log.reverse.flatMap (Event.receives b)

def Event.hands (b : BackendId) (c : ConnectID) : Event → List (Frontend × Packet)
  | .toFrontend t f pkt ok =>
      if t = .dispatcher b ∧ ok = true ∧ pkt.concerns c = true then [(f, pkt)] else []
  | _ => []

/-- What the dispatcher has handed over for the connection, oldest first. -/
def handed (b : BackendId) (c : ConnectID) (log : List Event) : List (Frontend × Packet) :=
  log.reverse.flatMap (Event.hands b c)

/-- A `Send` of the goroutine to the frontend that failed. -/
def Event.refuses (t : Tid) (f : Frontend) : Event → Bool
  | .toFrontend t' f' _ ok => t' == t && f' == f && !ok
  | _ => false

def Refused (t : Tid) (f : Frontend) (log : List Event) : Prop := log.any (Event.refuses t f) = true

instance Refused.decidable (t : Tid) (f : Frontend) (log : List Event) :
    Decidable (Refused t f log) :=
  inferInstanceAs (Decidable (_ = true))

def Event.keyed (a : AgentID) (c : ConnectID) : Event → Option Tid
  | .entered t a' c' _ => if a' = a ∧ c' = c then some t else none
  | _ => none

/-- Who made the last entry under the key. -/
def enteredBy (a : AgentID) (c : ConnectID) (log : List Event) : Option Tid :=
  log.findSome? (Event.keyed a c)

/-- What the dispatcher has to tell about the connection. -/
def heard (b : BackendId) (c : ConnectID) (s : ServerState) : List Packet :=
  received b s.log ++ if (s.backends b).draining then [streamClosed c] else []

section Log

variable {b : BackendId} {c : ConnectID} {log : List Event} {e : Event}

theorem received_append (es log : List Event) :
    received b (es ++ log) = received b log ++ received b es := by
  simp [received]

theorem handed_append (es log : List Event) :
    handed b c (es ++ log) = handed b c log ++ handed b c es := by
  simp [handed]

@[simp]
theorem received_cons : received b (e :: log) = received b log ++ e.receives b := by
  simp [received]

@[simp]
theorem handed_cons : handed b c (e :: log) = handed b c log ++ e.hands b c := by
  simp [handed]

end Log

/-! ## The conditions -/

/-- The entry was made by the dispatcher of the stream. -/
def MadeBy (cfg : ServerConfig) (s : ServerState) (b : BackendId) (c : ConnectID) : Prop :=
  enteredBy (cfg.agentID b) c s.log = some (.dispatcher b)

instance MadeBy.decidable (cfg : ServerConfig) (s : ServerState) (b : BackendId) (c : ConnectID) :
    Decidable (MadeBy cfg s b c) :=
  inferInstanceAs (Decidable (_ = _))

/-- The entries that an operation of a dispatcher comes upon, by stream and
connection ID. -/
def Op.meets (cfg : ServerConfig) (s : ServerState) (t : Tid) (op : Op) :
    List (BackendId × ConnectID) :=
  match t, op with
  | .dispatcher b, .addEstablished _ c _ | .dispatcher b, .getFrontend _ c _
  | .dispatcher b, .removeEstablished _ c _ =>
      if (s.established.getFrontend (cfg.agentID b) c).isSome then [(b, c)] else []
  | .dispatcher b, .removeEstablishedForBackendConn _ =>
      (((s.established.lookup (cfg.agentID b)).getD ∅).entries.filter fun e =>
        e.2.backend = some b).map fun e => (b, e.1)
  | _, _ => []

/-- Agent ID and connection ID tell the live connections apart: a dispatcher
comes upon no entry that another one has made. -/
def UniqueKeys (cfg : ServerConfig) (s : ServerState) (t : Tid) (op : Op) : Prop :=
  ∀ e ∈ op.meets cfg s t, MadeBy cfg s e.1 e.2

/-- The frontend that takes the packet an operation sends. -/
def Op.accepted (s : ServerState) (t : Tid) (c : Choice) : Op → List Frontend
  | .sendFrontend (some f) pkt _ => if (s.sendFrontend t f pkt c.ok).any Prod.snd then [f] else []
  | _ => []

/-- A frontend that has refused a packet takes no other from the goroutine. -/
def Steady (s : ServerState) (t : Tid) (c : Choice) (op : Op) : Prop :=
  ∀ f ∈ op.accepted s t c, ¬ Refused t f s.log

/-- The conditions under which a dispatcher forwards faithfully. -/
def Forwards (cfg : ServerConfig) (s : ServerState) (t : Tid) (c : Choice) (op : Op) : Prop :=
  UniqueKeys cfg s t op ∧ Steady s t c op

instance Forwards.decidable (cfg : ServerConfig) (s : ServerState) (t : Tid) (c : Choice)
    (op : Op) : Decidable (Forwards cfg s t c op) :=
  inferInstanceAs (Decidable
    ((∀ e ∈ op.meets cfg s t, MadeBy cfg s e.1 e.2) ∧ ∀ f ∈ op.accepted s t c, ¬ Refused t f s.log))

/-! ## What the dispatcher still has to do -/

/-- The packets of the connection that an operation may lead to. -/
def Op.brings (c : ConnectID) : Op → List Packet
  | .pendingRemove _ (.dialRsp _ _ pkt) => if pkt.opens c then [pkt] else []
  | .getFrontend _ _ pkt => if pkt.isFor c then [pkt] else []
  | .removeEstablished _ _ (.closeRsp pkt) => if pkt.isFor c then [pkt] else []
  | .removeEstablishedForBackendConn _ => [streamClosed c]
  | .sendFrontend _ pkt _ => if pkt.concerns c then [pkt] else []
  | _ => []

/-- The packets of the connection that an operation sends. -/
def Op.sends (c : ConnectID) : Op → List Packet
  | .sendFrontend _ pkt _ => if pkt.concerns c then [pkt] else []
  | _ => []

/-- The entry that an operation makes for the connection. -/
def Op.makes (c : ConnectID) : Op → Option ProxyClientConnection
  | .addEstablished _ c' p => if c' = c then some p else none
  | _ => none

/-- The operation has nothing to do with the connection. -/
def Op.Quiet (c : ConnectID) (o : Op) : Prop := o.brings c = [] ∧ o.makes c = none

/-- The operations with which the handling of a packet begins. -/
def Op.first : Op → Bool
  | .pendingRemove _ (.dialRsp _ _ _) | .getFrontend _ _ _ | .removeEstablished _ _ (.closeRsp _) =>
      true
  | _ => false

/-- What a dispatcher does after an operation. -/
structure Op.Follows (op : Op) (rest : List Op) : Prop where
  first : ∀ o ∈ rest, o.first = false
  outer : op.outer = true → ∀ o ∈ rest, o.outer = true
  torn : ∀ b, op = .removeEstablishedForBackendConn b → ∃ b', rest = [.exitDispatcher b']

theorem Op.first_outer {o : Op} (h : o.first = true) : o.outer = true := by
  unfold Op.first at h
  split at h <;> first | rfl | cases h

theorem Op.sends_nil_of_outer {o : Op} {c : ConnectID} (h : o.outer = true) : o.sends c = [] := by
  cases o <;> first | rfl | cases h

theorem Op.makes_none_of_outer {o : Op} {c : ConnectID} (h : o.outer = true) :
    o.makes c = none := by
  cases o <;> first | rfl | cases h

theorem Op.Quiet.sends {o : Op} {c : ConnectID} (h : o.Quiet c) : o.sends c = [] := by
  cases o <;> first | rfl | exact h.1

theorem each_imp {P : Prop} {R : Op → List Op → Prop} {l : List Op} :
    Pool.Each (fun o rest => P → R o rest) l ↔ (P → Pool.Each R l) := by
  induction l with
  | nil => simp [Pool.Each]
  | cons o l ih =>
      simp only [Pool.Each, ih]
      exact ⟨fun h hp => ⟨h.1 hp, h.2 hp⟩, fun h => ⟨fun hp => (h hp).1, fun hp => (h hp).2⟩⟩

theorem server_follows {cfg : ServerConfig} {okExec : ServerState → Tid → Choice → Op → Prop}
    {okArrive : ServerState → ServerAction → Prop} {s : System.State ServerState Tid Op}
    (h : Reach (server cfg).step (System.Allowed okExec okArrive) newServer s) (b : BackendId) :
    Pool.Each Op.Follows (s.threads (.dispatcher b)) := by
  have push : ∀ {ops rest : List Op}, (∀ o ∈ ops, o.outer = false) → (∀ o ∈ rest, o.first = false) →
      Pool.Each Op.Follows rest → Pool.Each Op.Follows (ops ++ rest) := by
    intro ops rest hops hfirst hrest
    induction ops with
    | nil => exact hrest
    | cons o ops ih =>
        refine ⟨⟨fun x hx => ?_, fun ho => ?_, fun b hb => ?_⟩,
          ih fun x hx => hops x (List.mem_cons_of_mem _ hx)⟩
        · rcases List.mem_append.mp hx with hx | hx
          · by_contra hne
            have hout := Op.first_outer (Bool.not_eq_false _ |>.mp hne)
            rw [hops x (List.mem_cons_of_mem _ hx)] at hout
            cases hout
          · exact hfirst x hx
        · rw [hops o List.mem_cons_self] at ho
          cases ho
        · have hout := hops o List.mem_cons_self
          rw [hb] at hout
          cases hout
  have hall := System.sequence (fun t o rest => (∃ b, t = .dispatcher b) → o.Follows rest)
    ?_ ?_ ?_ h (.dispatcher b)
  · exact each_imp.mp hall ⟨b, rfl⟩
  · exact fun t => trivial
  · intro s a s₁ t ops _ harr
    refine each_imp.mpr fun ht => ?_
    obtain ⟨b', rfl⟩ := ht
    rcases arrive_dispatcher harr with ⟨pkt, -, hops | ⟨-, rfl⟩⟩ | ⟨-, rfl⟩
    · rcases serveRecvBackend_cases hops with rfl | ⟨_, -, -, rfl⟩ | ⟨_, -, -, rfl⟩ |
        ⟨_, -, -, rfl⟩ | ⟨_, -, -, rfl⟩
      · trivial
      all_goals exact ⟨⟨by simp, by simp, by simp⟩, trivial⟩
    · trivial
    · refine ⟨⟨?_, ?_, ?_⟩, ⟨?_, ?_, ?_⟩, ⟨?_, ?_, ?_⟩, trivial⟩
      all_goals simp [Op.first, Op.outer]
  · intro s t c o rest s₁ ops start _ ht ho hrest hex
    refine ⟨each_imp.mpr fun hd => ?_, fun t' ops' hst cur hcur => each_imp.mpr fun hd => ?_⟩
    · exact push (exec_inner hex) (ho hd).first (each_imp.mp hrest hd)
    · obtain ⟨b', rfl⟩ := hd
      rcases exec_start hex with hnone | ⟨r, b, f, hstart⟩
      · rw [hnone] at hst
        cases hst
      · rw [hstart] at hst
        cases hst

/-! ## What one operation leaves alone -/

/-- The entry of the stream under the connection ID. -/
def OwnEntry (cfg : ServerConfig) (s : ServerState) (b : BackendId) (c : ConnectID)
    (p : ProxyClientConnection) : Prop :=
  s.established.getFrontend (cfg.agentID b) c = some p ∧ MadeBy cfg s b c

section Step

variable {cfg : ServerConfig} {s s₁ : ServerState} {t : Tid} {ch : Choice} {op : Op}
  {ops : List Op} {start : Option (Tid × List Op)} {b : BackendId} {c : ConnectID}

theorem sendFrontend_backends {f : Frontend} {pkt : Packet} {ok ok' : Bool}
    (h : s.sendFrontend t f pkt ok = some (s₁, ok')) : s₁.backends = s.backends := by
  simp only [ServerState.sendFrontend] at h
  repeat' split at h
  all_goals cases h
  all_goals rfl

theorem exec_draining (hex : exec cfg s t ch op = some (s₁, ops, start)) (b : BackendId) :
    (s₁.backends b).draining = (s.backends b).draining := by
  cases op with
  | exitDispatcher b' =>
      simp only [exec] at hex
      cases hex
      by_cases hb : b = b'
      · subst hb
        simp
      · simp [Function.update_of_ne hb]
  | sendFrontend f pkt k =>
      simp only [exec] at hex
      split at hex
      · cases hex
        rfl
      · split at hex <;> cases hex
        next ok hsend => rw [sendFrontend_backends hsend]
  | addEstablished b' c' p =>
      simp only [exec] at hex
      cases hex
      split <;> rfl
  | _ =>
      simp only [exec] at hex
      repeat' split at hex
      all_goals cases hex
      all_goals rfl

theorem exec_received (hop : op.Origin cfg s.log t)
    (hex : exec cfg s t ch op = some (s₁, ops, start)) : received b s₁.log = received b s.log := by
  obtain ⟨es, hlog, hes⟩ := exec_adds hop hex
  have hnil : received b es = [] := by
    refine List.flatMap_eq_nil_iff.mpr fun e he => ?_
    have hadd := hes e (List.mem_reverse.mp he)
    cases e with
    | fromBackend b' pkt => cases op <;> simp [Op.Adds] at hadd
    | _ => rfl
  rw [hlog, received_append, hnil, List.append_nil]

theorem exec_heard (hop : op.Origin cfg s.log t)
    (hex : exec cfg s t ch op = some (s₁, ops, start)) : heard b c s₁ = heard b c s := by
  rw [heard, heard, exec_received hop hex, exec_draining hex]

theorem exec_handed (hop : op.Origin cfg s.log t)
    (hquiet : t = .dispatcher b → op.sends c = [])
    (hex : exec cfg s t ch op = some (s₁, ops, start)) : handed b c s₁.log = handed b c s.log := by
  obtain ⟨es, hlog, hes⟩ := exec_adds hop hex
  have hnil : handed b c es = [] := by
    refine List.flatMap_eq_nil_iff.mpr fun e he => ?_
    have hadd := hes e (List.mem_reverse.mp he)
    cases e with
    | toFrontend t' f pkt ok =>
        cases op with
        | sendFrontend f' pkt' k =>
            obtain ⟨f'', ok', -, heq⟩ := hadd
            cases heq
            refine if_neg fun h => ?_
            have hsends := hquiet h.1
            simp [Op.sends, h.2.2] at hsends
        | _ => simp [Op.Adds] at hadd
    | _ => rfl
  rw [hlog, handed_append, hnil, List.append_nil]

theorem exec_refused (hop : op.Origin cfg s.log t)
    (hex : exec cfg s t ch op = some (s₁, ops, start)) {t' : Tid} {f : Frontend}
    (h : Refused t' f s.log) : Refused t' f s₁.log := by
  obtain ⟨es, hlog, -⟩ := exec_adds hop hex
  rw [Refused, hlog, List.any_append, show s.log.any _ = true from h, Bool.or_true]

theorem enteredBy_append {a : AgentID} {es log : List Event}
    (h : ∀ e ∈ es, e.keyed a c = none) : enteredBy a c (es ++ log) = enteredBy a c log := by
  rw [enteredBy, List.findSome?_append, List.findSome?_eq_none_iff.mpr h]
  rfl

/-- An entry of the stream is old, unless its dispatcher has just made it. -/
theorem exec_own (hop : op.Origin cfg s.log t) (hquiet : t = .dispatcher b → op.makes c = none)
    (hex : exec cfg s t ch op = some (s₁, ops, start)) :
    (MadeBy cfg s₁ b c → MadeBy cfg s b c) ∧
      ∀ p, OwnEntry cfg s₁ b c p → OwnEntry cfg s b c p := by
  obtain ⟨es, hlog, hes⟩ := exec_adds hop hex
  have hest := exec_established hop hex (cfg.agentID b) c
  by_cases hkey : ∃ b' p, op = .addEstablished b' c p ∧ cfg.agentID b' = cfg.agentID b
  · obtain ⟨b', p, rfl, hagent⟩ := hkey
    obtain ⟨rfl, -⟩ := hop
    have hnot : ¬ MadeBy cfg s₁ b c := by
      intro hmade
      have hby : enteredBy (cfg.agentID b) c s₁.log = some (.dispatcher b') := by
        simp only [exec] at hex
        cases hex
        split <;> simp [enteredBy, Event.keyed, hagent]
      rw [MadeBy, hby] at hmade
      have hsame : b' = b := by
        injection hmade with hmade
        injection hmade
      subst hsame
      have hnone := hquiet rfl
      simp [Op.makes] at hnone
    exact ⟨fun h => absurd h hnot, fun p h => absurd h.2 hnot⟩
  · have hmade : MadeBy cfg s₁ b c → MadeBy cfg s b c := by
      intro h
      rw [MadeBy, hlog, enteredBy_append] at h
      · exact h
      · intro e he
        have hadd := hes e he
        cases e with
        | entered t' a' c' p =>
            refine if_neg fun heq => hkey ?_
            obtain ⟨rfl, rfl⟩ := heq
            cases op with
            | addEstablished b' c'' p' =>
                simp only [Op.Adds, Event.entered.injEq, reduceCtorEq, and_false, exists_false,
                  or_false] at hadd
                obtain ⟨-, ha, rfl, -⟩ := hadd
                exact ⟨b', p', rfl, ha.symm⟩
            | _ => simp [Op.Adds] at hadd
        | _ => rfl
    refine ⟨hmade, fun p h => ⟨?_, hmade h.2⟩⟩
    have hp := h.1
    rw [hest] at hp
    cases op with
    | addEstablished b' c' p' =>
        simp only [Op.entryAfter] at hp
        split at hp
        · next hc =>
            obtain ⟨ha, rfl⟩ := hc
            exact absurd ⟨b', p', rfl, ha.symm⟩ hkey
        · exact hp
    | removeEstablished a' c' k =>
        simp only [Op.entryAfter] at hp
        split at hp
        · cases hp
        · exact hp
    | removeEstablishedForBackendConn b' =>
        simp only [Op.entryAfter] at hp
        split at hp
        · exact (Option.filter_eq_some_iff.mp hp).1
        · exact hp
    | removeEstablishedForStream u =>
        simp only [Op.entryAfter] at hp
        exact (Option.filter_eq_some_iff.mp hp).1
    | _ => exact hp

end Step

/-! ## The invariant -/

/-- What should be handed over for the connection. -/
def script (b : BackendId) (c : ConnectID) (s : ServerState) : List Packet :=
  (connWindow c).view (heard b c s)

/-- `L` was handed to `f`, and what else there is to hand over is under way:
while the entry stands and `f` has refused nothing, no packet was dropped. -/
structure Forwarding (cfg : ServerConfig) (b : BackendId) (c : ConnectID) (f : Frontend)
    (L : List Packet) (s : ServerState) (T : List Op) : Prop where
  queued : ¬ Refused (.dispatcher b) f s.log → L ++ T.flatMap (Op.sends c) <+: script b c s
  intact : ¬ Refused (.dispatcher b) f s.log →
    ((∃ p, OwnEntry cfg s b c p) ∨ ∃ o ∈ T, o.makes c ≠ none) →
    L ++ T.flatMap (Op.brings c) = script b c s ∨
      ((s.backends b).draining = true ∧ T.flatMap (Op.brings c) = [])
  opening : ∀ r b' resp pkt, .pendingRemove r (.dialRsp b' resp pkt) ∈ T → pkt.opens c = true →
    L = [] ∧ script b c s = [pkt] ∧ ¬ MadeBy cfg s b c
  entry : ∀ p, OwnEntry cfg s b c p → p.frontend = some f
  making : ∀ o ∈ T, ∀ p, o.makes c = some p → p.frontend = some f
  target : ∀ f' pkt k, .sendFrontend f' pkt k ∈ T → pkt.concerns c = true → f' = some f
  ended : (L ++ T.flatMap (Op.sends c)).any (Packet.ends c) = true →
    (∀ p, ¬ OwnEntry cfg s b c p) ∧ ∀ o ∈ T, o.makes c = none
  made : MadeBy cfg s b c ∨ (∃ o ∈ T, o.makes c ≠ none) → ∃ pkt ∈ received b s.log,
    pkt.opens c = true
  torn : ∀ b', .removeEstablishedForBackendConn b' ∈ T → (s.backends b).draining = true

section Still

variable {cfg : ServerConfig} {s s₁ : ServerState} {b : BackendId} {c : ConnectID} {f : Frontend}
  {L : List Packet} {T T₁ : List Op}

/-- Nothing happened to the connection. -/
theorem Forwarding.still (h : Forwarding cfg b c f L s T)
    (hbrings : T₁.flatMap (Op.brings c) = T.flatMap (Op.brings c))
    (hsends : T₁.flatMap (Op.sends c) = T.flatMap (Op.sends c))
    (hmem : ∀ o ∈ T₁, o ∈ T ∨ o.Quiet c) (hscript : script b c s₁ = script b c s)
    (hreceived : received b s.log ⊆ received b s₁.log)
    (hdraining : (s₁.backends b).draining = (s.backends b).draining)
    (hrefused : Refused (.dispatcher b) f s.log → Refused (.dispatcher b) f s₁.log)
    (hmade : MadeBy cfg s₁ b c → MadeBy cfg s b c)
    (hentry : ∀ p, OwnEntry cfg s₁ b c p → OwnEntry cfg s b c p) :
    Forwarding cfg b c f L s₁ T₁ := by
  have hold : ∀ {o : Op}, o ∈ T₁ → o.makes c ≠ none → o ∈ T :=
    fun ho hne => (hmem _ ho).resolve_right fun hq => hne hq.2
  have hold' : ∀ {o : Op}, o ∈ T₁ → o.brings c ≠ [] → o ∈ T :=
    fun ho hne => (hmem _ ho).resolve_right fun hq => hne hq.1
  refine ⟨?_, ?_, ?_, ?_, ?_, ?_, ?_, ?_, ?_⟩
  · intro hr
    rw [hsends, hscript]
    exact h.queued fun hr' => hr (hrefused hr')
  · intro hr hlive
    rw [hbrings, hscript, hdraining]
    refine h.intact (fun hr' => hr (hrefused hr')) (hlive.imp ?_ ?_)
    · exact fun hp => hp.imp hentry
    · exact fun ho => ho.imp fun o ho => ⟨hold ho.1 ho.2, ho.2⟩
  · intro r b' resp pkt ho hopen
    obtain ⟨h1, h2, h3⟩ := h.opening r b' resp pkt (hold' ho (by simp [Op.brings, hopen])) hopen
    exact ⟨h1, by rw [hscript, h2], fun hm => h3 (hmade hm)⟩
  · exact fun p hp => h.entry p (hentry p hp)
  · intro o ho p hp
    exact h.making o (hold ho (by rw [hp]; exact Option.some_ne_none p)) p hp
  · intro f' pkt k ho hc
    exact h.target f' pkt k (hold' ho (by simp [Op.brings, hc])) hc
  · intro hends
    rw [hsends] at hends
    obtain ⟨h1, h2⟩ := h.ended hends
    refine ⟨fun p hp => h1 p (hentry p hp), fun o ho => ?_⟩
    by_contra hne
    exact hne (h2 o (hold ho hne))
  · intro hm
    obtain ⟨pkt, hin, hopen⟩ :=
      h.made (hm.imp hmade fun ho => ho.imp fun o ho => ⟨hold ho.1 ho.2, ho.2⟩)
    exact ⟨pkt, hreceived hin, hopen⟩
  · intro b' ho
    rw [hdraining]
    exact h.torn b' (hold' ho (by simp [Op.brings]))

end Still

/-! ## Operations that do not concern the connection -/

theorem Packet.concerns_eq_false {c : ConnectID} {pkt : Packet} (hopen : pkt.type ≠ .dialRsp)
    (hfor : pkt.isFor c = false) : pkt.concerns c = false := by
  rw [Packet.concerns, hfor, Bool.or_false, Bool.eq_false_iff]
  exact fun h => hopen (Packet.opens_type h).1

theorem Packet.concerns_dialRsp {c : ConnectID} {pkt : Packet} (htype : pkt.type = .dialRsp) :
    pkt.concerns c = pkt.opens c := by
  have hfor : pkt.isFor c = false := by
    rw [Bool.eq_false_iff]
    intro h
    rcases Packet.isFor_type h with ht | ht <;> rw [htype] at ht <;> cases ht
  rw [Packet.concerns, hfor, Bool.or_false]

theorem newDialFailure_concerns {c : ConnectID} (hc : c ≠ 0) (r : DialID) (err : String) :
    (Packet.newDialFailure r err).concerns c = false := by
  rw [Packet.concerns_dialRsp rfl, Bool.eq_false_iff]
  intro h
  obtain ⟨-, resp, hpay, -, rfl⟩ := Packet.opens_type h
  cases hpay
  exact hc rfl

section Quiet

variable {cfg : ServerConfig} {s s₁ : ServerState} {ch : Choice} {op : Op} {ops : List Op}
  {start : Option (Tid × List Op)} {b : BackendId} {c : ConnectID}

theorem quiet_send {f : Option Frontend} {pkt : Packet} {k : AfterFrontend}
    (h : pkt.concerns c = false) : (Op.sendFrontend f pkt k).Quiet c := by
  simp [Op.Quiet, Op.brings, Op.makes, h]

theorem AfterRemove.next_quiet (hc : c ≠ 0) {log : List Event} {r : DialID} {k : AfterRemove}
    {pd : Option ProxyClientConnection} (hk : k.Origin log (.dispatcher b) r)
    (hq : (Op.pendingRemove r k).Quiet c) : ∀ o ∈ k.next cfg.agentID r pd, o.Quiet c := by
  cases k with
  | dialRsp b' resp pkt =>
      obtain ⟨-, -, htype, hpay, -⟩ := hk
      have hopen : pkt.opens c = false := by
        have hb := hq.1
        simp only [Op.brings] at hb
        split at hb
        · cases hb
        · next hne => exact Bool.eq_false_iff.mpr hne
      have hsend : pkt.concerns c = false := by rw [Packet.concerns_dialRsp htype, hopen]
      cases pd with
      | none =>
          simp only [AfterRemove.next]
          split
          · simp [sendBackendClose, Op.Quiet, Op.brings, Op.makes]
          · simp
      | some p =>
          simp only [AfterRemove.next]
          split
          · intro o ho
            rw [List.mem_singleton.mp ho]
            exact quiet_send hsend
          · next herr =>
              rw [Decidable.not_not] at herr
              have hne : resp.connectID ≠ c := by
                intro heq
                simp [Packet.opens, Packet.reportsConn, htype, hpay, herr, heq] at hopen
              intro o ho
              simp only [List.mem_cons, List.not_mem_nil, or_false] at ho
              rcases ho with rfl | rfl | rfl
              · simp [Op.Quiet, Op.brings, Op.makes, hne]
              · simp [Op.Quiet, Op.brings, Op.makes]
              · exact quiet_send hsend
  | dialCls pkt =>
      have hsend : pkt.concerns c = false := by
        refine Packet.concerns_eq_false (by rw [hk.1]; decide) (Bool.eq_false_iff.mpr fun h => ?_)
        rcases Packet.isFor_type h with ht | ht <;> rw [hk.1] at ht <;> cases ht
      cases pd with
      | none => simp [AfterRemove.next]
      | some p =>
          intro o ho
          rw [List.mem_singleton.mp ho]
          exact quiet_send hsend
  | timeout f =>
      cases pd with
      | none => simp [AfterRemove.next]
      | some p =>
          intro o ho
          rw [List.mem_singleton.mp ho]
          exact quiet_send (newDialFailure_concerns hc _ _)
  | cancel => simp [AfterRemove.next]
  | closeConn => simp [AfterRemove.next]
  | sendFailed f err =>
      have htid := hk.1
      rw [Frontend.tid, hk.2.1] at htid
      cases htid
  | failDial b' tell => cases hk.1

theorem exec_unconcerned (hc : c ≠ 0) (hop : op.Origin cfg s.log (.dispatcher b)) (hq : op.Quiet c)
    (hex : exec cfg s (.dispatcher b) ch op = some (s₁, ops, start)) : ∀ o ∈ ops, o.Quiet c := by
  cases op with
  | pendingRemove r k =>
      simp only [exec] at hex
      cases hex
      exact AfterRemove.next_quiet hc hop hq
  | pendingRemoveForBackend b' =>
      simp only [exec] at hex
      split at hex <;> cases hex
      intro o ho
      obtain ⟨p, -, rfl⟩ := List.mem_map.mp ho
      exact quiet_send (newDialFailure_concerns hc _ _)
  | removeEstablished a c' k =>
      have hsend : ∀ pkt, k = .closeRsp pkt → pkt.concerns c = false := by
        rintro pkt rfl
        obtain ⟨-, -, -, -, htype, -⟩ := hop
        have hb := hq.1
        simp only [Op.brings] at hb
        refine Packet.concerns_eq_false (by rw [htype]; decide) (Bool.eq_false_iff.mpr fun h => ?_)
        simp [h] at hb
      have hnext : ∀ p, ∀ o ∈ k.next c' p, o.Quiet c := by
        intro p o ho
        cases k with
        | closeRsp pkt =>
            cases p with
            | none => cases ho
            | some p =>
                simp only [AfterEstablished.next, List.mem_cons, List.not_mem_nil, or_false] at ho
                rcases ho with rfl | rfl
                · exact ⟨rfl, rfl⟩
                · exact quiet_send (hsend pkt rfl)
        | undo b' r =>
            cases p <;> simp only [AfterEstablished.next, List.mem_cons, List.not_mem_nil,
              or_false] at ho
            · rw [ho]
              exact ⟨rfl, rfl⟩
            · rcases ho with rfl | rfl <;> exact ⟨rfl, rfl⟩
        | closeConn b' r =>
            cases p <;> simp only [AfterEstablished.next, List.mem_cons, List.not_mem_nil,
              or_false] at ho
            rcases ho with rfl | rfl <;> exact ⟨rfl, rfl⟩
      simp only [exec] at hex
      split at hex <;> cases hex
      · exact hnext none
      · exact hnext (some _)
  | getFrontend b' c' pkt =>
      have hsend : pkt.concerns c = false := by
        have hb := hq.1
        simp only [Op.brings] at hb
        refine Packet.concerns_eq_false (by rw [hop.2.2.1]; decide)
          (Bool.eq_false_iff.mpr fun h => ?_)
        simp [h] at hb
      simp only [exec] at hex
      split at hex <;> cases hex
      · intro o ho
        rw [List.mem_singleton.mp ho]
        exact ⟨rfl, rfl⟩
      · intro o ho
        rw [List.mem_singleton.mp ho]
        exact quiet_send hsend
  | removeEstablishedForBackendConn b' => cases hq.1
  | removeEstablishedForStream u => cases hop.1
  | pendingRemoveForStream u => cases hop.1
  | sendFrontend f pkt k =>
      simp only [exec] at hex
      split at hex
      · cases hex
        simp
      · split at hex <;> cases hex
        cases k with
        | done => simp [AfterFrontend.next]
        | dialRsp b' resp =>
            simp only [AfterFrontend.next]
            split <;> simp [Op.Quiet, Op.brings, Op.makes]
  | sendBackend b' pkt k =>
      obtain ⟨b'', rfl, hk⟩ := hop
      simp only [exec] at hex
      split at hex <;> cases hex
      cases k with
      | done => simp [AfterBackend.next]
      | dialReq f r =>
          have htid := hk.1
          rw [Frontend.tid, hk.2.1] at htid
          cases htid
      | closeReq f r =>
          have htid := hk.1
          rw [Frontend.tid, hk.2.1] at htid
          cases htid
      | dialBackend r => cases hk.1
  | selectBackend f req pkt =>
      have htid := hop.1
      rw [Frontend.tid, hop.2.1] at htid
      cases htid
  | awaitDial r => cases hop.1
  | addEstablished b' c' p =>
      simp only [exec] at hex
      cases hex
      simp
  | closeMark r =>
      simp only [exec] at hex
      cases hex
      split <;> simp [Op.Quiet, Op.brings, Op.makes]
  | _ =>
      simp only [exec] at hex
      repeat' split at hex
      all_goals cases hex
      all_goals simp [Op.Quiet, Op.brings, Op.makes]

end Quiet

/-! ## The operations of the dispatcher -/

section Dispatcher

variable {cfg : ServerConfig} {s s₁ : ServerState} {ch : Choice} {op : Op} {ops rest : List Op}
  {start : Option (Tid × List Op)} {b : BackendId} {c : ConnectID} {f : Frontend} {L : List Packet}

theorem flatMap_brings_nil (h : ∀ o ∈ ops, o.Quiet c) : ops.flatMap (Op.brings c) = [] :=
  List.flatMap_eq_nil_iff.mpr fun o ho => (h o ho).1

theorem flatMap_sends_nil (h : ∀ o ∈ ops, o.Quiet c) : ops.flatMap (Op.sends c) = [] :=
  List.flatMap_eq_nil_iff.mpr fun o ho => (h o ho).sends

theorem flatMap_sends_outer (h : ∀ o ∈ ops, o.outer = true) : ops.flatMap (Op.sends c) = [] :=
  List.flatMap_eq_nil_iff.mpr fun o ho => Op.sends_nil_of_outer (h o ho)

/-- What an operation of the dispatcher that hands nothing over leaves alone. -/
structure Kept (cfg : ServerConfig) (b : BackendId) (c : ConnectID) (s s₁ : ServerState) :
    Prop where
  received : received b s₁.log = received b s.log
  draining : (s₁.backends b).draining = (s.backends b).draining
  refused : ∀ f, Refused (.dispatcher b) f s.log → Refused (.dispatcher b) f s₁.log
  made : MadeBy cfg s₁ b c → MadeBy cfg s b c
  entry : ∀ p, OwnEntry cfg s₁ b c p → OwnEntry cfg s b c p

theorem Kept.script (h : Kept cfg b c s s₁) : script b c s₁ = script b c s := by
  rw [Konnectivity.script, Konnectivity.script, heard, heard, h.received, h.draining]

theorem exec_kept {t : Tid} (hop : op.Origin cfg s.log t)
    (hquiet : t = .dispatcher b → op.makes c = none)
    (hex : exec cfg s t ch op = some (s₁, ops, start)) : Kept cfg b c s s₁ :=
  ⟨exec_received hop hex, exec_draining hex b, fun _ => exec_refused hop hex,
    (exec_own hop hquiet hex).1, (exec_own hop hquiet hex).2⟩

/-- An operation on a table that finds nothing to hand over. -/
theorem Forwarding.dropped (h : Forwarding cfg b c f L s (op :: rest)) (houter : op.outer = true)
    (hfollow : op.Follows rest) (hkept : Kept cfg b c s s₁) (hops : ∀ o ∈ ops, o.Quiet c)
    (hlive : ∀ p, OwnEntry cfg s₁ b c p →
      (s.backends b).draining = true ∧ rest.flatMap (Op.brings c) = []) :
    Forwarding cfg b c f L s₁ (ops ++ rest) := by
  have hrest := hfollow.outer houter
  have hmakes : ∀ o ∈ ops ++ rest, o.makes c = none := by
    intro o ho
    rcases List.mem_append.mp ho with ho | ho
    · exact (hops o ho).2
    · exact Op.makes_none_of_outer (hrest o ho)
  have hsends : (ops ++ rest).flatMap (Op.sends c) = (op :: rest).flatMap (Op.sends c) := by
    rw [List.flatMap_append, List.flatMap_cons, flatMap_sends_nil hops,
      Op.sends_nil_of_outer houter]
  have hold : ∀ {o : Op}, o ∈ ops ++ rest → o.brings c ≠ [] → o ∈ rest := by
    intro o ho hne
    rcases List.mem_append.mp ho with ho | ho
    · exact absurd (hops o ho).1 hne
    · exact ho
  refine ⟨?_, ?_, ?_, fun p hp => h.entry p (hkept.entry p hp), ?_, ?_, ?_, ?_, ?_⟩
  · intro hr
    rw [hsends, hkept.script]
    exact h.queued fun hr' => hr (hkept.refused f hr')
  · intro _ hlive'
    rcases hlive' with ⟨p, hp⟩ | ⟨o, ho, hne⟩
    · obtain ⟨hd, hnil⟩ := hlive p hp
      exact Or.inr ⟨by rw [hkept.draining, hd], by
        rw [List.flatMap_append, flatMap_brings_nil hops, hnil, List.append_nil]⟩
    · exact absurd (hmakes o ho) hne
  · intro r b' resp pkt ho hopen
    have hin := hold ho (by simp [Op.brings, hopen])
    have hfirst := hfollow.first _ hin
    cases hfirst
  · intro o ho p hp
    rw [hmakes o ho] at hp
    cases hp
  · intro f' pkt k ho hcon
    exact h.target f' pkt k (List.mem_cons_of_mem _ (hold ho (by simp [Op.brings, hcon]))) hcon
  · intro hends
    rw [hsends] at hends
    exact ⟨fun p hp => (h.ended hends).1 p (hkept.entry p hp), hmakes⟩
  · intro hm
    rw [hkept.received]
    rcases hm with hm | ⟨o, ho, hne⟩
    · exact h.made (Or.inl (hkept.made hm))
    · exact absurd (hmakes o ho) hne
  · intro b' ho
    rw [hkept.draining]
    exact h.torn b' (List.mem_cons_of_mem _ (hold ho (by simp [Op.brings])))

/-- An operation on a table that finds the entry of the stream. -/
theorem Forwarding.looked {p : ProxyClientConnection} (pkt : Packet)
    (h : Forwarding cfg b c f L s (op :: rest)) (houter : op.outer = true)
    (hfollow : op.Follows rest) (hkept : Kept cfg b c s s₁) (hown : OwnEntry cfg s b c p)
    (hbrings : op.brings c = [pkt]) (hinner : ∀ o ∈ ops, o.outer = false)
    (hsent : ops.flatMap (Op.sends c) = [pkt]) (hbrought : ops.flatMap (Op.brings c) = [pkt])
    (hnone : ∀ o ∈ ops, o.makes c = none)
    (htarget : ∀ f' pkt k, .sendFrontend f' pkt k ∈ ops → pkt.concerns c = true → f' = p.frontend)
    (hends : pkt.ends c = true → ∀ p, ¬ OwnEntry cfg s₁ b c p) :
    Forwarding cfg b c f L s₁ (ops ++ rest) := by
  have hrest := hfollow.outer houter
  have hmakes : ∀ o ∈ ops ++ rest, o.makes c = none := by
    intro o ho
    rcases List.mem_append.mp ho with ho | ho
    · exact hnone o ho
    · exact Op.makes_none_of_outer (hrest o ho)
  have hsends : (ops ++ rest).flatMap (Op.sends c) = [pkt] := by
    rw [List.flatMap_append, hsent, flatMap_sends_outer hrest, List.append_nil]
  have hall : (ops ++ rest).flatMap (Op.brings c) = (op :: rest).flatMap (Op.brings c) := by
    rw [List.flatMap_append, List.flatMap_cons, hbrought, hbrings]
  -- nothing was dropped so far, since the entry stands
  have hintact : ¬ Refused (.dispatcher b) f s.log →
      L ++ (op :: rest).flatMap (Op.brings c) = Konnectivity.script b c s := by
    intro hr
    refine (h.intact hr (Or.inl ⟨p, hown⟩)).resolve_right fun hnil => ?_
    rw [List.flatMap_cons, hbrings] at hnil
    cases hnil.2
  refine ⟨?_, ?_, ?_, fun p hp => h.entry p (hkept.entry p hp), ?_, ?_, ?_, ?_, ?_⟩
  · intro hr
    rw [hsends, hkept.script, ← hintact fun hr' => hr (hkept.refused f hr'), List.flatMap_cons,
      hbrings, ← List.append_assoc]
    exact List.prefix_append _ _
  · intro hr _
    rw [hall, hkept.script]
    exact Or.inl (hintact fun hr' => hr (hkept.refused f hr'))
  · intro r b' resp pkt' ho hopen
    rcases List.mem_append.mp ho with ho | ho
    · cases hinner _ ho
    · cases hfollow.first _ ho
  · intro o ho p hp
    rw [hmakes o ho] at hp
    cases hp
  · intro f' pkt' k ho hcon
    rcases List.mem_append.mp ho with ho | ho
    · rw [htarget f' pkt' k ho hcon]
      exact h.entry p hown
    · cases hrest _ ho
  · intro hend
    rw [hsends, List.any_append, Bool.or_eq_true] at hend
    refine ⟨?_, hmakes⟩
    rcases hend with hend | hend
    · have hold : (L ++ (op :: rest).flatMap (Op.sends c)).any (Packet.ends c) = true := by
        rw [List.any_append, hend, Bool.true_or]
      exact absurd hown ((h.ended hold).1 p)
    · exact hends (by simpa using hend)
  · intro hm
    rw [hkept.received]
    rcases hm with hm | ⟨o, ho, hne⟩
    · exact h.made (Or.inl (hkept.made hm))
    · exact absurd (hmakes o ho) hne
  · intro b' ho
    rw [hkept.draining]
    rcases List.mem_append.mp ho with ho | ho
    · cases hinner _ ho
    · exact h.torn b' (List.mem_cons_of_mem _ ho)

/-- An operation that does not concern the connection. -/
theorem Forwarding.exec_quiet (h : Forwarding cfg b c f L s (op :: rest)) (hc : c ≠ 0)
    (hop : op.Origin cfg s.log (.dispatcher b)) (hq : op.Quiet c)
    (hex : exec cfg s (.dispatcher b) ch op = some (s₁, ops, start)) :
    Forwarding cfg b c f L s₁ (ops ++ rest) := by
  have hops := exec_unconcerned hc hop hq hex
  have hkept : Kept cfg b c s s₁ := exec_kept hop (fun _ => hq.2) hex
  refine h.still ?_ ?_ (fun o ho => ?_) hkept.script (fun x hx => ?_) hkept.draining
    (hkept.refused f) hkept.made hkept.entry
  · rw [List.flatMap_append, List.flatMap_cons, flatMap_brings_nil hops, hq.1]
  · rw [List.flatMap_append, List.flatMap_cons, flatMap_sends_nil hops, hq.sends]
  · rcases List.mem_append.mp ho with ho | ho
    · exact Or.inr (hops o ho)
    · exact Or.inl (List.mem_cons_of_mem _ ho)
  · rw [hkept.received]
    exact hx

theorem isFor_iff {pkt : Packet} : pkt.isFor c = true ↔ pkt.belongsTo = some c := by
  rw [Packet.isFor, beq_iff_eq]

theorem Forwarding.exec_getFrontend {b' : BackendId} {c' : ConnectID} {pkt : Packet}
    (h : Forwarding cfg b c f L s (.getFrontend b' c' pkt :: rest))
    (hop : (Op.getFrontend b' c' pkt).Origin cfg s.log (.dispatcher b))
    (hfollow : (Op.getFrontend b' c' pkt).Follows rest)
    (hok : UniqueKeys cfg s (.dispatcher b) (.getFrontend b' c' pkt)) (hfor : pkt.isFor c = true)
    (hex : exec cfg s (.dispatcher b) ch (.getFrontend b' c' pkt) = some (s₁, ops, start)) :
    Forwarding cfg b c f L s₁ (ops ++ rest) := by
  have hkept : Kept cfg b c s s₁ := exec_kept hop (fun _ => rfl) hex
  have hinner := exec_inner hex
  obtain ⟨heq, -, htype, hbelongs⟩ := hop
  cases heq
  obtain rfl : c' = c := by
    rw [isFor_iff.mp hfor] at hbelongs
    exact (Option.some.inj hbelongs).symm
  simp only [exec] at hex
  split at hex
  · next hnone =>
      cases hex
      refine h.dropped rfl hfollow hkept (fun o ho => ?_) fun p hp => ?_
      · rw [List.mem_singleton.mp ho]
        exact ⟨rfl, rfl⟩
      · rw [hp.1] at hnone
        cases hnone
  · next p hp =>
      cases hex
      have hcon : pkt.concerns c' = true := by rw [Packet.concerns, hfor, Bool.or_true]
      refine h.looked pkt rfl hfollow hkept ⟨hp, hok (b, c') (by simp [Op.meets, hp])⟩
        (by simp [Op.brings, hfor]) hinner
        (by simp [Op.sends, hcon]) (by simp [Op.brings, hcon]) (by simp [Op.makes]) ?_ ?_
      · intro f' pkt' k ho _
        rw [List.mem_singleton] at ho
        cases ho
        rfl
      · intro hends
        simp [Packet.ends, htype] at hends

theorem Forwarding.exec_closeRsp {a : AgentID} {c' : ConnectID} {pkt : Packet}
    (h : Forwarding cfg b c f L s (.removeEstablished a c' (.closeRsp pkt) :: rest))
    (hop : (Op.removeEstablished a c' (.closeRsp pkt)).Origin cfg s.log (.dispatcher b))
    (hfollow : (Op.removeEstablished a c' (.closeRsp pkt)).Follows rest)
    (hok : UniqueKeys cfg s (.dispatcher b) (.removeEstablished a c' (.closeRsp pkt)))
    (hfor : pkt.isFor c = true)
    (hex : exec cfg s (.dispatcher b) ch (.removeEstablished a c' (.closeRsp pkt)) =
      some (s₁, ops, start)) : Forwarding cfg b c f L s₁ (ops ++ rest) := by
  have hkept : Kept cfg b c s s₁ := exec_kept hop (fun _ => rfl) hex
  have hinner := exec_inner hex
  have hget := exec_established hop hex (cfg.agentID b) c
  obtain ⟨b', heq, rfl, -, -, hbelongs⟩ := hop
  cases heq
  obtain rfl : c' = c := by
    rw [isFor_iff.mp hfor] at hbelongs
    exact (Option.some.inj hbelongs).symm
  have hgone : ∀ p, ¬ OwnEntry cfg s₁ b c' p := by
    intro p hp
    have hnone := hp.1
    simp [hget, Op.entryAfter] at hnone
  have hfst := @Established.remove_fst s.established (cfg.agentID b) c'
  simp only [exec] at hex
  split at hex
  · cases hex
    refine h.dropped rfl hfollow hkept (fun o ho => ?_) fun p hp => absurd hp (hgone p)
    cases ho
  · next p hp =>
      cases hex
      have hown : s.established.getFrontend (cfg.agentID b) c' = some p := by rw [← hfst, hp]
      have hcon : pkt.concerns c' = true := by rw [Packet.concerns, hfor, Bool.or_true]
      refine h.looked pkt rfl hfollow hkept ⟨hown, hok (b, c') (by simp [Op.meets, hown])⟩
        (by simp [Op.brings, hfor]) hinner (by simp [AfterEstablished.next, Op.sends, hcon])
        (by simp [AfterEstablished.next, Op.brings, hcon])
        (by simp [AfterEstablished.next, Op.makes]) ?_ fun _ => hgone
      intro f' pkt' k ho _
      simp only [AfterEstablished.next, List.mem_cons, reduceCtorEq, Op.sendFrontend.injEq,
        List.not_mem_nil, or_false, false_or] at ho
      exact ho.1

theorem flatMap_once {α β : Type} {l : List α} {g : α → ConnectID} (hnd : (l.map g).Nodup) {x : α}
    (hx : x ∈ l) {F : α → List β} (hF : ∀ y ∈ l, g y ≠ g x → F y = []) : l.flatMap F = F x := by
  induction l with
  | nil => cases hx
  | cons y l ih =>
      rw [List.map_cons, List.nodup_cons] at hnd
      rw [List.flatMap_cons]
      rcases List.mem_cons.mp hx with rfl | hx'
      · have hnil : l.flatMap F = [] := by
          refine List.flatMap_eq_nil_iff.mpr fun z hz =>
            hF z (List.mem_cons_of_mem _ hz) fun heq => ?_
          exact hnd.1 (heq ▸ List.mem_map_of_mem hz)
        rw [hnil, List.append_nil]
      · have hne : g y ≠ g x := fun heq => hnd.1 (heq ▸ List.mem_map_of_mem hx')
        rw [hF y List.mem_cons_self hne, List.nil_append,
          ih hnd.2 hx' fun z hz => hF z (List.mem_cons_of_mem _ hz)]

theorem streamClosed_concerns {c' : ConnectID} :
    (streamClosed c').concerns c = decide (c' = c) := by
  have hopen : (streamClosed c').opens c = false := rfl
  rw [Packet.concerns, hopen, Bool.false_or, streamClosed_isFor]

theorem Forwarding.exec_teardown {b' : BackendId}
    (h : Forwarding cfg b c f L s (.removeEstablishedForBackendConn b' :: rest))
    (hG : SharedOrigin cfg s)
    (hop : (Op.removeEstablishedForBackendConn b').Origin cfg s.log (.dispatcher b))
    (hfollow : (Op.removeEstablishedForBackendConn b').Follows rest)
    (hok : UniqueKeys cfg s (.dispatcher b) (.removeEstablishedForBackendConn b'))
    (hex : exec cfg s (.dispatcher b) ch (.removeEstablishedForBackendConn b') =
      some (s₁, ops, start)) : Forwarding cfg b c f L s₁ (ops ++ rest) := by
  have hkept : Kept cfg b c s s₁ := exec_kept hop (fun _ => rfl) hex
  have hinner := exec_inner hex
  have hget := exec_established hop hex (cfg.agentID b) c
  cases (hop : Tid.dispatcher b = .dispatcher b')
  have hdrain := h.torn b List.mem_cons_self
  have hnil : rest.flatMap (Op.brings c) = [] := by
    obtain ⟨b', rfl⟩ := hfollow.torn b rfl
    rfl
  simp only [exec] at hex
  split at hex
  · cases hex
    exact h.dropped rfl hfollow hkept (fun o ho => by cases ho) fun _ _ => ⟨hdrain, hnil⟩
  · next ret hret =>
      split at hex <;> cases hex
      next hperm =>
        by_cases hp : ∃ p ∈ ch.order, p.connectID = c
        · obtain ⟨p, hmem, rfl⟩ := hp
          obtain ⟨c', hentry, hback⟩ :=
            (Established.mem_removeForBackendConn hret).mp (hperm.mem_iff.mp hmem)
          obtain rfl : p.connectID = c' := (hG.established _ _ p hentry).2.1
          have hown : OwnEntry cfg s b p.connectID p := by
            refine ⟨hentry, ?_⟩
            unfold Established.getFrontend at hentry
            split at hentry
            · cases hentry
            · next conns hconns =>
                have hin := GoMap.lookup_eq_some_iff.mp hentry
                refine hok (b, p.connectID) (List.mem_map.mpr ⟨⟨p.connectID, p⟩, ?_, rfl⟩)
                rw [hconns]
                exact List.mem_filter.mpr ⟨hin, by simp [hback]⟩
          have hnd : (ch.order.map fun p => p.connectID).Nodup := by
            refine (hperm.map fun p => p.connectID).nodup_iff.mpr ?_
            unfold Established.removeForBackendConn at hret
            split at hret
            · cases hret
            · next conns hconns =>
                rw [← Option.some.inj hret]
                refine GoMap.removeWhere_map_nodup
                  (f := ProxyClientConnection.connectID) fun k v hv => ?_
                exact (hG.established (cfg.agentID b) k v (by
                  simp [Established.getFrontend, hconns, hv])).2.1
          have honce : ∀ F : Op → List Packet, (∀ n, F (.observeClosed n) = []) →
              (∀ f pkt k, F (.sendFrontend f pkt k) =
                if pkt.concerns p.connectID then [pkt] else []) →
              ((if ch.order.length > 0 then [Op.observeClosed ch.order.length] else []) ++
                ch.order.map fun p =>
                  Op.sendFrontend p.frontend (streamClosed p.connectID) .done).flatMap F =
                [streamClosed p.connectID] := by
            intro F hobserve hsend
            have hleft : (if ch.order.length > 0 then [Op.observeClosed ch.order.length]
                else []).flatMap F = [] := by
              split <;> simp [hobserve]
            rw [List.flatMap_append, hleft, List.nil_append, List.flatMap_map,
              flatMap_once hnd hmem fun y _ hne => ?_]
            · simp [hsend, streamClosed_concerns]
            · simp [hsend, streamClosed_concerns, hne]
          refine h.looked (streamClosed p.connectID) rfl hfollow hkept hown rfl hinner
            (honce _ (fun _ => rfl) fun _ _ _ => rfl) (honce _ (fun _ => rfl) fun _ _ _ => rfl)
            (fun o ho => ?_) (fun f' pkt k ho hcon => ?_) fun _ p' hp' => ?_
          · rcases List.mem_append.mp ho with ho | ho
            · split at ho
              · rw [List.mem_singleton.mp ho]
                rfl
              · cases ho
            · obtain ⟨p', -, rfl⟩ := List.mem_map.mp ho
              rfl
          · rcases List.mem_append.mp ho with ho | ho
            · split at ho
              · cases List.mem_singleton.mp ho
              · cases ho
            · obtain ⟨p', hmem', heq⟩ := List.mem_map.mp ho
              cases heq
              rw [show (Packet.ofCloseResponse ⟨"", p'.connectID⟩) =
                streamClosed p'.connectID from rfl,
                streamClosed_concerns, decide_eq_true_eq] at hcon
              rw [List.inj_on_of_nodup_map hnd hmem' hmem hcon]
          · have hleft := hp'.1
            rw [hget, Op.entryAfter, if_pos rfl, hentry] at hleft
            simp only [Option.filter_eq_some_iff, Option.some.injEq] at hleft
            obtain ⟨rfl, hne⟩ := hleft
            simp [hback] at hne
        · refine h.dropped rfl hfollow hkept (fun o ho => ?_) fun _ _ => ⟨hdrain, hnil⟩
          rcases List.mem_append.mp ho with ho | ho
          · split at ho
            · rw [List.mem_singleton.mp ho]
              exact ⟨rfl, rfl⟩
            · cases ho
          · obtain ⟨p, hmem, rfl⟩ := List.mem_map.mp ho
            refine quiet_send ?_
            rw [show (Packet.ofCloseResponse ⟨"", p.connectID⟩) = streamClosed p.connectID from rfl,
              streamClosed_concerns]
            exact decide_eq_false fun heq => hp ⟨p, hmem, heq⟩

/-- The `DIAL_RSP` of the connection meets the pending dials. -/
theorem Forwarding.exec_dialRsp {r : DialID} {b' : BackendId} {resp : DialResponse} {pkt : Packet}
    (h : Forwarding cfg b c f L s (.pendingRemove r (.dialRsp b' resp pkt) :: rest))
    (hG : SharedOrigin cfg s)
    (hop : (Op.pendingRemove r (.dialRsp b' resp pkt)).Origin cfg s.log (.dispatcher b))
    (hthen : (Op.pendingRemove r (.dialRsp b' resp pkt)).Then rest) (hopen : pkt.opens c = true)
    (hex : exec cfg s (.dispatcher b) ch (.pendingRemove r (.dialRsp b' resp pkt)) =
      some (s₁, ops, start)) : ∃ f, Forwarding cfg b c f L s₁ (ops ++ rest) := by
  have hkept : Kept cfg b c s s₁ := exec_kept hop (fun _ => rfl) hex
  obtain rfl : rest = [] := hthen
  obtain ⟨hL, hscript, hnot⟩ := h.opening r b' resp pkt List.mem_cons_self hopen
  obtain ⟨heq, -, htype, hpay, hlog⟩ := hop
  cases heq
  obtain ⟨-, resp', hpay', herr, hconn⟩ := Packet.opens_type hopen
  rw [hpay] at hpay'
  cases hpay'
  have hnone : ¬ MadeBy cfg s₁ b c := fun hm => hnot (hkept.made hm)
  have hsend : pkt.concerns c = true := by rw [Packet.concerns, hopen, Bool.true_or]
  subst hL
  simp only [exec] at hex
  cases hex
  rw [PendingDialManager.remove_fst, List.append_nil]
  cases hp : s.pendingDial.pendingDial.lookup r with
  | none =>
      have hquiet : ∀ o ∈ (AfterRemove.dialRsp b resp pkt).next cfg.agentID r none, o.Quiet c := by
        intro o ho
        simp only [AfterRemove.next] at ho
        split at ho
        · rw [List.mem_singleton.mp ho]
          exact ⟨rfl, rfl⟩
        · cases ho
      refine ⟨f, ⟨fun _ => ?_, fun _ hlive => ?_, fun r b' resp' pkt' ho ho' => ?_, fun p hp => ?_,
        fun o ho p hp => ?_, fun f' pkt' k ho hc => ?_, fun hends => ?_, fun hm => ?_,
        fun b' ho => ?_⟩⟩
      · rw [flatMap_sends_nil hquiet]
        exact List.nil_prefix
      · rcases hlive with ⟨p, hp⟩ | ⟨o, ho, hne⟩
        · exact absurd hp.2 hnone
        · exact absurd (hquiet o ho).2 hne
      · have hb := (hquiet _ ho).1
        simp [Op.brings, ho'] at hb
      · exact absurd hp.2 hnone
      · rw [(hquiet o ho).2] at hp
        cases hp
      · have hb := (hquiet _ ho).1
        simp [Op.brings, hc] at hb
      · rw [flatMap_sends_nil hquiet] at hends
        cases hends
      · rcases hm with hm | ⟨o, ho, hne⟩
        · exact absurd hm hnone
        · exact absurd (hquiet o ho).2 hne
      · have hb := (hquiet _ ho).1
        cases hb
  | some p =>
      obtain ⟨-, f₀, -, hf, -⟩ := hG.pending r p hp
      have hops : (AfterRemove.dialRsp b resp pkt).next cfg.agentID r (some p) =
          [.addEstablished b c { p with connectID := c, agentID := cfg.agentID b },
            .closeWithBackend p.frontend b, .sendFrontend p.frontend pkt (.dialRsp b resp)] := by
        simp [AfterRemove.next, herr, hconn]
      rw [hops]
      have hsends : ([.addEstablished b c { p with connectID := c, agentID := cfg.agentID b },
          .closeWithBackend p.frontend b, .sendFrontend p.frontend pkt (.dialRsp b resp)] :
            List Op).flatMap (Op.sends c) = [pkt] := by
        simp [Op.sends, hsend]
      refine ⟨f₀, ⟨fun _ => ?_, fun _ _ => Or.inl ?_, fun r b' resp' pkt' ho ho' => ?_,
        fun p' hp' => absurd hp'.2 hnone, fun o ho p' hp' => ?_, fun f' pkt' k ho hc => ?_,
        fun hends => ?_, fun _ => ?_, fun b' ho => ?_⟩⟩
      · exact ⟨[], by rw [List.append_nil, List.nil_append, hsends, hkept.script, hscript]⟩
      · rw [hkept.script, hscript]
        simp [Op.brings, hsend]
      · simp at ho
      · simp only [List.mem_cons, List.not_mem_nil, or_false] at ho
        rcases ho with rfl | rfl | rfl
        · simp only [Op.makes, if_true, Option.some.injEq] at hp'
          rw [← hp', hf]
        · cases hp'
        · cases hp'
      · simp only [List.mem_cons, reduceCtorEq, Op.sendFrontend.injEq, List.not_mem_nil, or_false,
          false_or] at ho
        rw [ho.1, hf]
      · rw [hsends, List.nil_append] at hends
        have hnot : Packet.ends c pkt = false := (connWindow c).opens_ends pkt hopen
        simp [hnot] at hends
      · rw [hkept.received]
        refine ⟨pkt, List.mem_flatMap.mpr ⟨_, List.mem_reverse.mpr hlog, ?_⟩, hopen⟩
        simp [Event.receives]
      · simp at ho

/-- The connection is entered. -/
theorem Forwarding.exec_add {b' : BackendId} {p : ProxyClientConnection}
    (h : Forwarding cfg b c f L s (.addEstablished b' c p :: rest))
    (hop : (Op.addEstablished b' c p).Origin cfg s.log (.dispatcher b))
    (hthen : (Op.addEstablished b' c p).Then rest)
    (hex : exec cfg s (.dispatcher b) ch (.addEstablished b' c p) = some (s₁, ops, start)) :
    Forwarding cfg b c f L s₁ (ops ++ rest) := by
  have hreceived : received b s₁.log = received b s.log := exec_received hop hex
  have hdraining := exec_draining hex b
  have hrefused : Refused (.dispatcher b) f s.log → Refused (.dispatcher b) f s₁.log :=
    exec_refused hop hex
  have hscript : script b c s₁ = script b c s := by
    rw [script, script, heard, heard, hreceived, hdraining]
  have hget := exec_established hop hex (cfg.agentID b) c
  cases hop.1
  obtain ⟨pkt, resp, -, -, rfl⟩ := hthen
  have hmakes : ∃ o ∈ (Op.addEstablished b c p :: [.closeWithBackend p.frontend b,
      .sendFrontend p.frontend pkt (.dialRsp b resp)]), o.makes c ≠ none :=
    ⟨_, List.mem_cons_self, by simp [Op.makes]⟩
  have hown : ∀ p', OwnEntry cfg s₁ b c p' → p' = p := by
    intro p' hp'
    have heq := hp'.1
    rw [hget, Op.entryAfter, if_pos ⟨rfl, rfl⟩] at heq
    exact (Option.some.inj heq).symm
  have hnil : ops = [] := by
    simp only [exec] at hex
    cases hex
    rfl
  rw [hnil, List.nil_append]
  refine ⟨fun hr => ?_, fun hr _ => ?_, fun r b' resp' pkt' ho _ => ?_, fun p' hp' => ?_,
    fun o ho p' hp' => ?_, fun f' pkt' k ho hc => ?_, fun hends => ?_, fun _ => ?_, fun b' ho => ?_⟩
  · rw [hscript]
    exact h.queued fun hr' => hr (hrefused hr')
  · rw [hscript, hdraining]
    exact h.intact (fun hr' => hr (hrefused hr')) (Or.inr hmakes)
  · simp at ho
  · rw [hown p' hp']
    exact h.making _ List.mem_cons_self p (by simp [Op.makes])
  · simp only [List.mem_cons, List.not_mem_nil, or_false] at ho
    rcases ho with rfl | rfl <;> cases hp'
  · exact h.target f' pkt' k (List.mem_cons_of_mem _ ho) hc
  · obtain ⟨o, ho, hne⟩ := hmakes
    exact absurd ((h.ended hends).2 o ho) hne
  · rw [hreceived]
    exact h.made (Or.inr hmakes)
  · simp at ho

/-- A packet of the connection is sent, or the frontend refuses it. -/
theorem Forwarding.exec_send {f' : Option Frontend} {pkt : Packet} {k : AfterFrontend}
    (h : Forwarding cfg b c f L s (.sendFrontend f' pkt k :: rest))
    (hhanded : handed b c s.log = L.map fun pkt => (f, pkt)) (hpre : L <+: script b c s)
    (hop : (Op.sendFrontend f' pkt k).Origin cfg s.log (.dispatcher b))
    (hfollow : (Op.sendFrontend f' pkt k).Follows rest)
    (hok : Steady s (.dispatcher b) ch (.sendFrontend f' pkt k)) (hcon : pkt.concerns c = true)
    (hex : exec cfg s (.dispatcher b) ch (.sendFrontend f' pkt k) = some (s₁, ops, start)) :
    ∃ L, handed b c s₁.log = (L.map fun pkt => (f, pkt)) ∧ L <+: script b c s₁ ∧
      (s₁.panic = none → Forwarding cfg b c f L s₁ (ops ++ rest)) := by
  have hkept : Kept cfg b c s s₁ := exec_kept hop (fun _ => rfl) hex
  obtain rfl : f' = some f := h.target f' pkt k List.mem_cons_self hcon
  have hmem : ∀ {o : Op}, o ∈ rest → o ∈ (Op.sendFrontend (some f) pkt k :: rest) :=
    List.mem_cons_of_mem _
  have hheads : (Op.sendFrontend (some f) pkt k).sends c = [pkt] := by simp [Op.sends, hcon]
  have hbrings : (Op.sendFrontend (some f) pkt k).brings c = [pkt] := by simp [Op.brings, hcon]
  simp only [exec] at hex
  split at hex
  · cases hex
  next s' ok hsend =>
    cases hex
    obtain ⟨-, -, hlog | ⟨hlog, hpanic⟩⟩ := sendFrontend_cases hsend
    · cases ok with
      | true =>
          -- it is handed over, and nothing was refused before
          have hr : ¬ Refused (.dispatcher b) f s.log := hok f (by simp [Op.accepted, hsend])
          have hqueued := h.queued hr
          rw [List.flatMap_cons, hheads, ← List.append_assoc] at hqueued
          have hnext : k.next cfg.agentID true = [] := by cases k <;> rfl
          rw [hnext, List.nil_append]
          refine ⟨L ++ [pkt], ?_, ?_, fun _ => ⟨fun _ => ?_, fun _ hlive => ?_, ?_,
            fun p hp => h.entry p (hkept.entry p hp), fun o ho => h.making o (hmem ho),
            fun f' pkt' k ho => h.target f' pkt' k (hmem ho), fun hends => ?_, fun hm => ?_,
            fun b' ho => ?_⟩⟩
          · rw [hlog, handed_cons, hhanded]
            simp [Event.hands, hcon]
          · rw [hkept.script]
            exact (List.prefix_append _ _).trans hqueued
          · rw [hkept.script]
            exact hqueued
          · refine Or.inl ?_
            have hold := h.intact hr (hlive.imp (fun hp => hp.imp hkept.entry)
              fun ho => ho.imp fun o ho => ⟨hmem ho.1, ho.2⟩)
            rw [List.flatMap_cons, hbrings] at hold
            rw [hkept.script, List.append_assoc]
            exact hold.resolve_right fun hnil => by cases hnil.2
          · intro r b' resp pkt' ho _
            cases hfollow.first _ ho
          · have hold : (L ++ (Op.sendFrontend (some f) pkt k :: rest).flatMap (Op.sends c)).any
                (Packet.ends c) = true := by
              rw [List.flatMap_cons, hheads, ← List.append_assoc]
              exact hends
            obtain ⟨h1, h2⟩ := h.ended hold
            exact ⟨fun p hp => h1 p (hkept.entry p hp), fun o ho => h2 o (hmem ho)⟩
          · rw [hkept.received]
            exact h.made (hm.imp hkept.made fun ho => ho.imp fun o ho => ⟨hmem ho.1, ho.2⟩)
          · rw [hkept.draining]
            exact h.torn b' (hmem ho)
      | false =>
          have hr₁ : Refused (.dispatcher b) f s₁.log := by
            rw [Refused, hlog]
            simp [Event.refuses]
          have hquiet : ∀ o ∈ k.next cfg.agentID false, o.Quiet c := by
            cases k <;> simp [AfterFrontend.next, Op.Quiet, Op.brings, Op.makes]
          have hold : ∀ {o : Op}, o ∈ k.next cfg.agentID false ++ rest → ¬ o.Quiet c → o ∈ rest :=
            fun ho hne => (List.mem_append.mp ho).resolve_left fun ho => hne (hquiet _ ho)
          refine ⟨L, ?_, by rw [hkept.script]; exact hpre, fun _ => ⟨fun hr => absurd hr₁ hr,
            fun hr => absurd hr₁ hr, ?_, fun p hp => h.entry p (hkept.entry p hp), ?_, ?_,
            fun hends => ?_, fun hm => ?_, fun b' ho => ?_⟩⟩
          · rw [hlog, handed_cons, hhanded]
            simp [Event.hands]
          · intro r b' resp pkt' ho hopen
            cases hfollow.first _ (hold ho fun hq => by simp [Op.Quiet, Op.brings, hopen] at hq)
          · intro o ho p hp
            exact h.making o (hmem (hold ho fun hq => by rw [hq.2] at hp; cases hp)) p hp
          · intro f' pkt' k' ho hc
            exact h.target f' pkt' k' (hmem (hold ho fun hq => by
              simp [Op.Quiet, Op.brings, hc] at hq)) hc
          · have hends' : (L ++ (Op.sendFrontend (some f) pkt k :: rest).flatMap (Op.sends c)).any
                (Packet.ends c) = true := by
              rw [List.flatMap_append, flatMap_sends_nil hquiet, List.nil_append, List.any_append,
                Bool.or_eq_true] at hends
              rw [List.flatMap_cons, List.any_append, List.any_append, Bool.or_eq_true,
                Bool.or_eq_true]
              exact hends.imp_right Or.inr
            obtain ⟨h1, h2⟩ := h.ended hends'
            refine ⟨fun p hp => h1 p (hkept.entry p hp), fun o ho => ?_⟩
            by_contra hne
            exact hne (h2 o (hmem (hold ho fun hq => hne hq.2)))
          · rw [hkept.received]
            refine h.made (hm.imp hkept.made fun ho => ho.imp fun o ho => ⟨?_, ho.2⟩)
            exact hmem (hold ho.1 fun hq => ho.2 hq.2)
          · rw [hkept.draining]
            exact h.torn b' (hmem (hold ho fun hq => by simp [Op.Quiet, Op.brings] at hq))
    · refine ⟨L, by rw [hlog]; exact hhanded, by rw [hkept.script]; exact hpre, fun hnone => ?_⟩
      rw [hpanic] at hnone
      cases hnone

/-- An operation of the dispatcher. -/
theorem Forwarding.exec (h : Forwarding cfg b c f L s (op :: rest)) (hc : c ≠ 0)
    (hhanded : handed b c s.log = L.map fun pkt => (f, pkt)) (hpre : L <+: script b c s)
    (hG : SharedOrigin cfg s) (hop : op.Origin cfg s.log (.dispatcher b)) (hthen : op.Then rest)
    (hfollow : op.Follows rest) (hok : Forwards cfg s (.dispatcher b) ch op)
    (hex : exec cfg s (.dispatcher b) ch op = some (s₁, ops, start)) :
    ∃ f L, handed b c s₁.log = (L.map fun pkt => (f, pkt)) ∧ L <+: script b c s₁ ∧
      (s₁.panic = none → Forwarding cfg b c f L s₁ (ops ++ rest)) := by
  -- nothing is handed over by an operation that does not send
  have same : op.sends c = [] → op.makes c = none → ∀ {f₁ : Frontend},
      (L.map fun pkt => (f₁, pkt)) = (L.map fun pkt => (f, pkt)) →
      Forwarding cfg b c f₁ L s₁ (ops ++ rest) →
      ∃ f L, handed b c s₁.log = (L.map fun pkt => (f, pkt)) ∧ L <+: script b c s₁ ∧
        (s₁.panic = none → Forwarding cfg b c f L s₁ (ops ++ rest)) := by
    intro hsends hmakes f₁ hmap hnew
    have hkept : Kept cfg b c s s₁ := exec_kept hop (fun _ => hmakes) hex
    refine ⟨f₁, L, ?_, by rw [hkept.script]; exact hpre, fun _ => hnew⟩
    rw [exec_handed hop (fun _ => hsends) hex, hhanded, hmap]
  have quiet : op.Quiet c → ∃ f L, handed b c s₁.log = (L.map fun pkt => (f, pkt)) ∧
      L <+: script b c s₁ ∧ (s₁.panic = none → Forwarding cfg b c f L s₁ (ops ++ rest)) :=
    fun hq => same hq.sends hq.2 rfl (h.exec_quiet hc hop hq hex)
  cases op with
  | pendingRemove r k =>
      by_cases hq : (Op.pendingRemove r k).Quiet c
      · exact quiet hq
      · cases k with
        | dialRsp b' resp pkt =>
            have hopen : pkt.opens c = true := by
              by_contra hne
              exact hq ⟨by simp [Op.brings, hne], rfl⟩
            have hL := (h.opening r b' resp pkt List.mem_cons_self hopen).1
            obtain ⟨f₁, hnew⟩ := h.exec_dialRsp hG hop hthen hopen hex
            exact same rfl rfl (by rw [hL]; rfl) hnew
        | _ => exact absurd ⟨rfl, rfl⟩ hq
  | addEstablished b' c' p =>
      by_cases heq : c' = c
      · subst heq
        have hnew := h.exec_add hop hthen hex
        have hscript : script b c' s₁ = script b c' s := by
          rw [script, script, exec_heard hop hex]
        refine ⟨f, L, ?_, by rw [hscript]; exact hpre, fun _ => hnew⟩
        rw [exec_handed hop (fun _ => rfl) hex, hhanded]
      · exact quiet ⟨rfl, by simp [Op.makes, heq]⟩
  | getFrontend b' c' pkt =>
      by_cases hfor : pkt.isFor c = true
      · exact same rfl rfl rfl (h.exec_getFrontend hop hfollow hok.1 hfor hex)
      · exact quiet ⟨by simp [Op.brings, hfor], rfl⟩
  | removeEstablished a c' k =>
      by_cases hq : (Op.removeEstablished a c' k).Quiet c
      · exact quiet hq
      · cases k with
        | closeRsp pkt =>
            have hfor : pkt.isFor c = true := by
              by_contra hne
              exact hq ⟨by simp [Op.brings, hne], rfl⟩
            exact same rfl rfl rfl (h.exec_closeRsp hop hfollow hok.1 hfor hex)
        | _ => exact absurd ⟨rfl, rfl⟩ hq
  | removeEstablishedForBackendConn b' =>
      exact same rfl rfl rfl (h.exec_teardown hG hop hfollow hok.1 hex)
  | sendFrontend f' pkt k =>
      by_cases hcon : pkt.concerns c = true
      · obtain ⟨L₁, hnew⟩ := h.exec_send hhanded hpre hop hfollow hok.2 hcon hex
        exact ⟨f, L₁, hnew⟩
      · exact quiet (quiet_send (Bool.eq_false_iff.mpr hcon))
  | _ => exact quiet ⟨rfl, rfl⟩

end Dispatcher

/-! ## What arrives -/

section Arrive

variable {cfg : ServerConfig} {s s₁ : ServerState} {b : BackendId} {c : ConnectID} {f : Frontend}
  {L : List Packet} {T : List Op} {start : Option (Tid × List Op)} {a : ServerAction}

theorem arrive_draining (harr : arrive cfg s a = some (s₁, start)) (hne : a ≠ .drained b) :
    (s₁.backends b).draining = (s.backends b).draining := by
  have hset : ∀ {b' : BackendId} {x : BackendState},
      (b' = b → x.draining = (s.backends b).draining) →
      (Function.update s.backends b' x b).draining = (s.backends b).draining := by
    intro b' x hx
    by_cases hb : b = b'
    · subst hb
      rw [Function.update_self]
      exact hx rfl
    · rw [Function.update_of_ne hb]
  cases a <;> simp only [arrive] at harr <;> repeat' split at harr
  all_goals cases harr
  all_goals first
    | rfl
    | (refine hset ?_; rintro rfl; first | rfl | exact absurd rfl hne)

/-- What an arrival leaves alone. -/
theorem arrive_kept (harr : arrive cfg s a = some (s₁, start)) :
    handed b c s₁.log = handed b c s.log ∧
      (∀ f, Refused (.dispatcher b) f s.log → Refused (.dispatcher b) f s₁.log) ∧
      (MadeBy cfg s₁ b c → MadeBy cfg s b c) ∧
      ∀ p, OwnEntry cfg s₁ b c p → OwnEntry cfg s b c p := by
  obtain ⟨-, hest, hlog | ⟨e, he, hlog⟩⟩ := arrive_adds harr
  · simp [MadeBy, OwnEntry, hest, hlog]
  · have hmade : MadeBy cfg s₁ b c → MadeBy cfg s b c := by
      intro h
      have hnone : ∀ x ∈ [e], x.keyed (cfg.agentID b) c = none := by
        intro x hx
        rw [List.mem_singleton.mp hx]
        cases e <;> first | rfl | cases he
      rw [MadeBy, hlog, ← List.singleton_append, enteredBy_append hnone] at h
      exact h
    refine ⟨?_, fun f hr => ?_, hmade, fun p hp => ⟨by rw [← hest]; exact hp.1, hmade hp.2⟩⟩
    · have hnil : e.hands b c = [] := by cases e <;> first | rfl | cases he
      rw [hlog, handed_cons, hnil, List.append_nil]
    · rw [Refused, hlog, List.any_cons, show s.log.any _ = true from hr, Bool.or_true]

/-- One more packet of the connection. -/
theorem Forwarding.hears (h : Forwarding cfg b c f L s []) (hpre : L <+: script b c s)
    {pkt : Packet} (hfor : pkt.isFor c = true) (hdraining : (s.backends b).draining = false)
    (hscript : script b c s₁ = (connWindow c).extend (script b c s) pkt)
    (hreceived : received b s.log ⊆ received b s₁.log)
    (hrefused : Refused (.dispatcher b) f s.log → Refused (.dispatcher b) f s₁.log)
    (hmade : MadeBy cfg s₁ b c → MadeBy cfg s b c)
    (hentry : ∀ p, OwnEntry cfg s₁ b c p → OwnEntry cfg s b c p)
    (hbrings : T.flatMap (Op.brings c) = [pkt]) (hsends : ∀ o ∈ T, o.sends c = [])
    (hmakes : ∀ o ∈ T, o.makes c = none)
    (hopening : ∀ r b' resp pkt', .pendingRemove r (.dialRsp b' resp pkt') ∈ T →
      pkt'.opens c = false)
    (htorn : ∀ b', .removeEstablishedForBackendConn b' ∈ T → (s₁.backends b).draining = true) :
    Forwarding cfg b c f L s₁ T := by
  have hnil : T.flatMap (Op.sends c) = [] := List.flatMap_eq_nil_iff.mpr hsends
  have hopened : MadeBy cfg s b c → script b c s ≠ [] := by
    intro hm hempty
    obtain ⟨pkt', hin, hopen⟩ := h.made (Or.inl hm)
    have hnot := Window.view_eq_nil.mp hempty pkt' (List.mem_append_left _ hin)
    rw [show (connWindow c).opens pkt' = true from hopen] at hnot
    cases hnot
  refine ⟨fun _ => ?_, fun hr hlive => ?_, fun r b' resp pkt' ho hopen => ?_,
    fun p hp => h.entry p (hentry p hp), fun o ho p hp => ?_, fun f' pkt' k ho hcon => ?_,
    fun hends => ?_, fun hm => ?_, htorn⟩
  · rw [hnil, List.append_nil, hscript]
    exact hpre.trans (Window.prefix_extend _ _ _)
  · refine Or.inl ?_
    obtain ⟨p, hp⟩ : ∃ p, OwnEntry cfg s₁ b c p :=
      hlive.resolve_right fun ho => by
        obtain ⟨o, ho, hne⟩ := ho
        exact hne (hmakes o ho)
    have hown := hentry p hp
    have hall : L = script b c s := by
      rcases h.intact (fun hr' => hr (hrefused hr')) (Or.inl ⟨p, hown⟩) with hall | ⟨hd, -⟩
      · rw [← hall]
        exact (List.append_nil L).symm
      · rw [hdraining] at hd
        cases hd
    have hopen : (script b c s).any (connWindow c).ends = false := by
      rw [← hall, Bool.eq_false_iff]
      intro hends
      refine (h.ended ?_).1 p hown
      rw [List.flatMap_nil, List.append_nil]
      exact hends
    rw [hbrings, hscript, Window.extend_inside (hopened hown.2) hopen hfor, hall]
  · rw [hopening r b' resp pkt' ho] at hopen
    cases hopen
  · rw [hmakes o ho] at hp
    cases hp
  · have hs := hsends _ ho
    simp [Op.sends, hcon] at hs
  · refine ⟨fun p hp => ?_, hmakes⟩
    rw [hnil] at hends
    exact (h.ended hends).1 p (hentry p hp)
  · rcases hm with hm | ⟨o, ho, hne⟩
    · obtain ⟨pkt', hin, hopen⟩ := h.made (Or.inl (hmade hm))
      exact ⟨pkt', hreceived hin, hopen⟩
    · exact absurd (hmakes o ho) hne

/-- The first packet of the connection. -/
theorem Forwarding.opens (h : Forwarding cfg b c f L s []) (hpre : L <+: script b c s)
    {r : DialID} {resp : DialResponse} {pkt : Packet} (hopen : pkt.opens c = true)
    (hdraining : (s.backends b).draining = false)
    (hfirst : ∀ pkt ∈ received b s.log, pkt.opens c = false)
    (hscript : script b c s₁ = (connWindow c).extend (script b c s) pkt)
    (hmade : MadeBy cfg s₁ b c → MadeBy cfg s b c) :
    Forwarding cfg b c f L s₁ [.pendingRemove r (.dialRsp b resp pkt)] := by
  have hempty : script b c s = [] := by
    refine Window.view_eq_nil.mpr fun pkt' hin => ?_
    rw [heard, hdraining] at hin
    exact hfirst pkt' (by simpa using hin)
  have hnot : ¬ MadeBy cfg s₁ b c := by
    intro hm
    obtain ⟨pkt', hin, hopen'⟩ := h.made (Or.inl (hmade hm))
    rw [hfirst pkt' hin] at hopen'
    cases hopen'
  obtain rfl : L = [] := by
    rw [hempty] at hpre
    exact List.prefix_nil.mp hpre
  have hone : script b c s₁ = [pkt] := by
    rw [hscript, hempty, Window.extend_nil]
    exact if_pos hopen
  refine ⟨fun _ => List.nil_prefix, fun _ hlive => ?_, fun r b' resp' pkt' ho _ => ?_,
    fun p hp => absurd hp.2 hnot, fun o ho p hp => ?_, fun f' pkt' k ho _ => ?_, fun hends => ?_,
    fun hm => ?_, fun b' ho => ?_⟩
  · rcases hlive with ⟨p, hp⟩ | ⟨o, ho, hne⟩
    · exact absurd hp.2 hnot
    · rw [List.mem_singleton.mp ho] at hne
      exact absurd rfl hne
  · cases List.mem_singleton.mp ho
    exact ⟨rfl, hone, hnot⟩
  · rw [List.mem_singleton.mp ho] at hp
    cases hp
  · cases List.mem_singleton.mp ho
  · cases hends
  · rcases hm with hm | ⟨o, ho, hne⟩
    · exact absurd hm hnot
    · rw [List.mem_singleton.mp ho] at hne
      exact absurd rfl hne
  · cases List.mem_singleton.mp ho

theorem serveRecvBackend_isFor {pkt : Packet} (hc : c ≠ 0) (hfor : pkt.isFor c = true) :
    serveRecvBackend cfg b pkt = some [.getFrontend b c pkt] ∨
      serveRecvBackend cfg b pkt = some [.removeEstablished (cfg.agentID b) c (.closeRsp pkt)] := by
  have hbelongs := isFor_iff.mp hfor
  simp only [Packet.belongsTo] at hbelongs
  split at hbelongs
  · next m htype hpay =>
      cases hbelongs
      exact Or.inl (by simp [serveRecvBackend, htype, Packet.getData, hpay, hc])
  · next m htype hpay =>
      cases hbelongs
      exact Or.inr (by simp [serveRecvBackend, htype, Packet.getCloseResponse, hpay])
  · cases hbelongs

theorem serveRecvBackend_quiet {pkt : Packet} {ops : List Op} (hopen : pkt.opens c = false)
    (hfor : pkt.isFor c = false) (hops : serveRecvBackend cfg b pkt = some ops) :
    ∀ o ∈ ops, o.Quiet c := by
  rcases serveRecvBackend_cases hops with rfl | ⟨_, -, -, rfl⟩ | ⟨_, -, -, rfl⟩ | ⟨_, -, -, rfl⟩ |
    ⟨_, -, -, rfl⟩
  all_goals simp [Op.Quiet, Op.brings, Op.makes, hopen, hfor]

/-- The dispatcher takes a packet. -/
theorem Forwarding.deliver (h : Forwarding cfg b c f L s []) (hpre : L <+: script b c s)
    (hc : c ≠ 0) {pkt : Packet} (harr : arrive cfg s (.deliver b pkt) = some (s₁, start))
    (honce : (received b s₁.log).countP (Packet.opens c) ≤ 1) :
    L <+: script b c s₁ ∧ ∃ ops, start = some (.dispatcher b, ops) ∧
      Forwarding cfg b c f L s₁ ops := by
  obtain ⟨-, hrefused, hmade, hentry⟩ := arrive_kept (b := b) (c := c) harr
  have hsame := arrive_draining (b := b) harr (by simp)
  have hdraining : (s.backends b).draining = false := by
    simp only [arrive] at harr
    split at harr
    · next hguard => simpa using (Bool.and_eq_true_iff.mp hguard).2
    · cases harr
  obtain ⟨ops, hstart, hlog, hops⟩ := arrive_deliver harr
  have hreceived : received b s₁.log = received b s.log ++ [pkt] := by
    rw [hlog, received_cons]
    simp [Event.receives]
  have hscript : script b c s₁ = (connWindow c).extend (script b c s) pkt := by
    rw [script, script, heard, heard, hsame, hdraining, hreceived]
    simp [Window.view_snoc]
  refine ⟨?_, ops, hstart, ?_⟩
  · rw [hscript]
    exact hpre.trans (Window.prefix_extend _ _ _)
  have hsub : received b s.log ⊆ received b s₁.log := by
    rw [hreceived]
    exact List.subset_append_left _ _
  by_cases hopen : pkt.opens c = true
  · have hfirst : ∀ pkt ∈ received b s.log, pkt.opens c = false := by
      rw [hreceived, List.countP_append] at honce
      have hone : [pkt].countP (Packet.opens c) = 1 := by simp [hopen]
      have hzero : (received b s.log).countP (Packet.opens c) = 0 := by omega
      intro pkt' hin
      exact Bool.eq_false_iff.mpr (List.countP_eq_zero.mp hzero pkt' hin)
    obtain ⟨htype, resp, hpay, herr, -⟩ := Packet.opens_type hopen
    have hserve : serveRecvBackend cfg b pkt =
        some [.pendingRemove resp.random (.dialRsp b resp pkt)] := by
      simp [serveRecvBackend, htype, Packet.getDialResponse, hpay]
    rw [hserve] at hops
    obtain rfl : [.pendingRemove resp.random (.dialRsp b resp pkt)] = ops := by
      rcases hops with hops | ⟨hops, -⟩
      · exact Option.some.inj hops
      · cases hops
    exact h.opens hpre hopen hdraining hfirst hscript hmade
  rw [Bool.not_eq_true] at hopen
  by_cases hfor : pkt.isFor c = true
  · have hone : ops = [.getFrontend b c pkt] ∨
        ops = [.removeEstablished (cfg.agentID b) c (.closeRsp pkt)] := by
      rcases @serveRecvBackend_isFor cfg b c pkt hc hfor with hserve | hserve
      · rw [hserve] at hops
        rcases hops with hops | ⟨hops, -⟩
        · exact Or.inl (Option.some.inj hops).symm
        · cases hops
      · rw [hserve] at hops
        rcases hops with hops | ⟨hops, -⟩
        · exact Or.inr (Option.some.inj hops).symm
        · cases hops
    refine h.hears hpre hfor hdraining hscript hsub (hrefused f) hmade hentry ?_ ?_ ?_ ?_ ?_
    all_goals rcases hone with rfl | rfl
    all_goals simp [Op.brings, Op.sends, Op.makes, hfor]
  · rw [Bool.not_eq_true] at hfor
    have hquiet : ∀ o ∈ ops, o.Quiet c := by
      rcases hops with hops | ⟨-, rfl⟩
      · exact serveRecvBackend_quiet hopen hfor hops
      · exact fun o ho => by cases ho
    refine h.still ?_ ?_ (fun o ho => Or.inr (hquiet o ho)) ?_ hsub hsame (hrefused f) hmade hentry
    · rw [flatMap_brings_nil hquiet]
      rfl
    · rw [flatMap_sends_nil hquiet]
      rfl
    · rw [hscript]
      exact Window.extend_outside hopen hfor

/-- The dispatcher leaves its loop. -/
theorem Forwarding.drained (h : Forwarding cfg b c f L s []) (hpre : L <+: script b c s)
    (harr : arrive cfg s (.drained b) = some (s₁, start)) :
    L <+: script b c s₁ ∧ ∃ ops, start = some (.dispatcher b, ops) ∧
      Forwarding cfg b c f L s₁ ops := by
  obtain ⟨-, hrefused, hmade, hentry⟩ := arrive_kept (b := b) (c := c) harr
  simp only [arrive] at harr
  split at harr
  · next hguard =>
      have hdraining : (s.backends b).draining = false := by
        simpa using (Bool.and_eq_true_iff.mp hguard).2
      cases harr
      have hfor : (streamClosed c).isFor c = true := by
        rw [streamClosed_isFor]
        exact decide_eq_true rfl
      have hscript : script b c (s.setBackend b { s.backends b with draining := true }) =
          (connWindow c).extend (script b c s) (streamClosed c) := by
        rw [script, script, heard, heard, hdraining]
        simp [Window.view_snoc]
      refine ⟨?_, _, rfl, ?_⟩
      · rw [hscript]
        exact hpre.trans (Window.prefix_extend _ _ _)
      · refine h.hears hpre hfor hdraining hscript (fun _ hx => hx) (hrefused f) hmade hentry
          rfl ?_ ?_ ?_ ?_
        all_goals simp [Op.sends, Op.makes]
  · cases harr

end Arrive

/-! ## Runs -/

theorem Forwarding.start {cfg : ServerConfig} {b : BackendId} {c : ConnectID} {f : Frontend} :
    Forwarding cfg b c f [] {} [] := by
  have hnot : ¬ MadeBy cfg {} b c := fun h => by cases h
  refine ⟨fun _ => List.nil_prefix, fun _ hlive => ?_, fun r b' resp pkt ho => ?_,
    fun p hp => absurd hp.2 hnot, fun o ho => ?_, fun f' pkt k ho => ?_, fun hends => ?_,
    fun hm => ?_, fun b' ho => ?_⟩
  · rcases hlive with ⟨p, hp⟩ | ⟨o, ho, -⟩
    · exact absurd hp.2 hnot
    · cases ho
  · cases ho
  · cases ho
  · cases ho
  · cases hends
  · rcases hm with hm | ⟨o, ho, -⟩
    · exact absurd hm hnot
    · cases ho
  · cases ho

/-- An arrival that is none of the dispatcher's business. -/
theorem arrive_received {cfg : ServerConfig} {s s₁ : ServerState} {b : BackendId} {a : ServerAction}
    {start : Option (Tid × List Op)} (harr : arrive cfg s a = some (s₁, start))
    (hne : ∀ pkt, a ≠ .deliver b pkt) : received b s₁.log = received b s.log := by
  rcases arrive_new harr with hlog | ⟨b', pkt, rfl, hlog⟩ | ⟨e, hlog, he⟩
  · rw [hlog]
  · have hb : b' ≠ b := fun heq => hne pkt (by rw [heq])
    rw [hlog, received_cons]
    simp [Event.receives, hb]
  · have hnil : e.receives b = [] := by
      cases e with
      | fromBackend b' pkt => exact absurd rfl (he b' pkt)
      | _ => rfl
    rw [hlog, received_cons, hnil, List.append_nil]

/-- What holds of a connection in every state, while the agent reports it at most once. -/
def ForwardInv (cfg : ServerConfig) (b : BackendId) (c : ConnectID)
    (s : System.State ServerState Tid Op) : Prop :=
  (received b s.shared.log).countP (Packet.opens c) ≤ 1 →
    ∃ f L, handed b c s.shared.log = (L.map fun pkt => (f, pkt)) ∧ L <+: script b c s.shared ∧
      (s.shared.panic = none → Forwarding cfg b c f L s.shared (s.threads (.dispatcher b)))

theorem server_forwarding {cfg : ServerConfig} {okArrive : ServerState → ServerAction → Prop}
    {s : System.State ServerState Tid Op} {b : BackendId} {c : ConnectID} (hc : c ≠ 0)
    (h : Reach (server cfg).step (System.Allowed (Forwards cfg) okArrive) newServer s) :
    ForwardInv cfg b c s := by
  refine server_invariant (ForwardInv cfg b c) ?_ ?_ ?_ ?_ h
  · intro _
    exact ⟨⟨"", .proxy⟩, [], rfl, List.nil_prefix, fun _ => Forwarding.start⟩
  · intro s t ch op rest s₁ ops start hr hinv hpanic ht hok hex honce
    obtain ⟨hG, hP⟩ := server_origin hr
    have hop := hP t op (by rw [ht]; exact List.mem_cons_self)
    have hsame : received b s₁.log = received b s.shared.log := exec_received hop hex
    obtain ⟨f, L, hhanded, hpre, hforward⟩ := hinv (by rw [← hsame]; exact honce)
    have hold := hforward hpanic
    by_cases hd : t = .dispatcher b
    · subst hd
      rw [ht] at hold
      have hthen := server_then hr (.dispatcher b)
      have hfollow := server_follows hr b
      rw [ht] at hthen hfollow
      have hnew := hold.exec hc hhanded hpre hG hop hthen.1 hfollow.1 hok hex
      simpa [Function.update_self] using hnew
    · have hkept : Kept cfg b c s.shared s₁ := exec_kept hop (fun heq => absurd heq hd) hex
      have hsameT : Function.update s.threads t (ops ++ rest) (.dispatcher b) =
          s.threads (.dispatcher b) := Function.update_of_ne (Ne.symm hd) _ _
      refine ⟨f, L, ?_, by rw [hkept.script]; exact hpre, fun _ => ?_⟩
      · rw [exec_handed hop (fun heq => absurd heq hd) hex, hhanded]
      · show Forwarding cfg b c f L s₁ (Function.update s.threads t (ops ++ rest) (.dispatcher b))
        rw [hsameT]
        refine hold.still rfl rfl (fun o ho => Or.inl ho) hkept.script
          (fun x hx => ?_) hkept.draining (hkept.refused f) hkept.made hkept.entry
        rw [hkept.received]
        exact hx
  · intro s r b' f' hinv honce
    obtain ⟨f, L, hhanded, hpre, hforward⟩ := hinv honce
    refine ⟨f, L, hhanded, hpre, fun hpanic => ?_⟩
    show Forwarding cfg b c f L s.shared (Function.update s.threads (.timer r)
      (s.threads (.timer r) ++ [.waitTimer r b' f']) (.dispatcher b))
    rw [Function.update_of_ne (by simp)]
    exact hforward hpanic
  · intro s a s₁ start threads hr hinv hpanic _ harr hthreads honce
    obtain ⟨hhand, hrefused, hmade, hentry⟩ := arrive_kept (b := b) (c := c) harr
    have honce' : (received b s.shared.log).countP (Packet.opens c) ≤ 1 := by
      obtain ⟨-, -, hlog | ⟨e, -, hlog⟩⟩ := arrive_adds harr
      · rw [← hlog]
        exact honce
      · refine Nat.le_trans ?_ honce
        show _ ≤ (received b s₁.log).countP (Packet.opens c)
        rw [hlog, received_cons, List.countP_append]
        exact Nat.le_add_right _ _
    obtain ⟨f, L, hhanded, hpre, hforward⟩ := hinv honce'
    have hold := hforward hpanic
    -- the dispatcher is idle when it is given something to do
    have hgiven : ∀ ops, start = some (.dispatcher b, ops) →
        s.threads (.dispatcher b) = [] ∧ threads (.dispatcher b) = ops := by
      rintro ops rfl
      exact ⟨hthreads.1, hthreads.started⟩
    have htaken : (L <+: script b c s₁ ∧ ∃ ops, start = some (.dispatcher b, ops) ∧
        Forwarding cfg b c f L s₁ ops) → ∃ f L, handed b c s₁.log = (L.map fun pkt => (f, pkt)) ∧
        L <+: script b c s₁ ∧ (s₁.panic = none →
          Forwarding cfg b c f L s₁ (threads (.dispatcher b))) := by
      rintro ⟨hpre, ops, hstart, hnew⟩
      refine ⟨f, L, by rw [hhand, hhanded], hpre, fun _ => ?_⟩
      rw [(hgiven ops hstart).2]
      exact hnew
    by_cases hdeliver : ∃ pkt, a = .deliver b pkt
    · obtain ⟨pkt, rfl⟩ := hdeliver
      obtain ⟨ops, hstart, -, -⟩ := arrive_deliver harr
      rw [(hgiven ops hstart).1] at hold
      exact htaken (hold.deliver hpre hc harr honce)
    by_cases hdrained : a = .drained b
    · subst hdrained
      obtain ⟨ops, hstart⟩ : ∃ ops, start = some (.dispatcher b, ops) := by
        simp only [arrive] at harr
        split at harr <;> cases harr
        exact ⟨_, rfl⟩
      rw [(hgiven ops hstart).1] at hold
      exact htaken (hold.drained hpre harr)
    have hreceived : received b s₁.log = received b s.shared.log :=
      arrive_received harr fun pkt heq => hdeliver ⟨pkt, heq⟩
    have hdraining := arrive_draining harr hdrained
    have hscript : script b c s₁ = script b c s.shared := by
      rw [script, script, heard, heard, hreceived, hdraining]
    have hsame : threads (.dispatcher b) = s.threads (.dispatcher b) := by
      cases start with
      | none => rw [show threads = s.threads from hthreads]
      | some st =>
          obtain ⟨t, ops⟩ := st
          have ht : t ≠ .dispatcher b := by
            rintro rfl
            rcases arrive_dispatcher harr with ⟨pkt, heq, -⟩ | ⟨heq, -⟩
            · exact hdeliver ⟨pkt, heq⟩
            · exact hdrained heq
          rw [hthreads.2, Function.update_of_ne (Ne.symm ht)]
    refine ⟨f, L, by rw [hhand, hhanded], by rw [hscript]; exact hpre, fun _ => ?_⟩
    show Forwarding cfg b c f L s₁ (threads (.dispatcher b))
    rw [hsame]
    refine hold.still rfl rfl (fun o ho => Or.inl ho) hscript (fun x hx => ?_) hdraining
      (hrefused f) hmade hentry
    rw [hreceived]
    exact hx

/-! ## Results -/

/-- Whatever the handlers, the timers and the other dispatchers do meanwhile,
what the dispatcher of a stream hands over for a connection goes to one frontend
and is the beginning of the conversation the agent sent, from the `DIAL_RSP` to
the first `CLOSE_RSP`, with the end of the stream for a `CLOSE_RSP`; and where a
`CLOSE_RSP` was handed over, all of it was. -/
theorem dispatcher_forwards {cfg : ServerConfig} {s : System.State ServerState Tid Op}
    (h : Reach (server cfg).step (System.Allowed (Forwards cfg) fun _ _ => True) newServer s)
    {b : BackendId} {c : ConnectID} (hc : c ≠ 0)
    (honce : (received b s.shared.log).countP (Packet.opens c) ≤ 1) :
    ∃ f L, handed b c s.shared.log = (L.map fun pkt => (f, pkt)) ∧
      L <+: (connWindow c).view (heard b c s.shared) ∧
      (L.any (Packet.ends c) = true → L = (connWindow c).view (heard b c s.shared)) := by
  obtain ⟨f, L, hhanded, hpre, -⟩ := server_forwarding hc h honce
  exact ⟨f, L, hhanded, hpre, fun hends => Window.eq_view_of_end hpre hends⟩

/-- A connection with two `DATA` packets, the second of which comes after the
stream of another agent has brought one under the same connection ID. -/
theorem dispatcher_forwards_closed :
    let cfg : ServerConfig := ⟨fun b => { id := if b = 0 then "a" else "b" }, false⟩
    let conversation := [Packet.ofDialResponse ⟨"", 1, 10⟩, .ofData ⟨1, "", [7]⟩,
      .ofData ⟨1, "", [8, 9]⟩, .ofCloseResponse ⟨"", 1⟩]
    ∃ s : System.State ServerState Tid Op,
      Reach (server cfg).step (System.Allowed (Forwards cfg) fun _ _ => True) newServer s ∧
        handed 0 1 s.shared.log = conversation.map (fun pkt => (proxyFrontend "x", pkt)) ∧
        ∃ f L, handed 0 1 s.shared.log = (L.map fun pkt => (f, pkt)) ∧
          L <+: (connWindow 1).view (heard 0 1 s.shared) ∧
          (L.any (Packet.ends 1) = true → L = (connWindow 1).view (heard 0 1 s.shared)) := by
  intro cfg conversation
  let dialReq := fun r : DialID => Packet.ofDialRequest ⟨"tcp", "h", r⟩
  let acts : List (System.Action Tid ServerAction Choice) :=
    [.arrive (.connect 0), .arrive (.connect 1), .arrive (.openStream "x" none),
      .arrive (.openStream "y" none),
      .arrive (.receive "x" (dialReq 10)), .run (.proxy "x") { backend := some 0 },
      .run (.proxy "x") {}, .run (.proxy "x") {}, .run (.proxy "x") {},
      .arrive (.receive "y" (dialReq 11)), .run (.proxy "y") { backend := some 1 },
      .run (.proxy "y") {}, .run (.proxy "y") {}, .run (.proxy "y") {},
      .arrive (.deliver 0 (.ofDialResponse ⟨"", 1, 10⟩)), .run (.dispatcher 0) {},
      .run (.dispatcher 0) {}, .run (.dispatcher 0) {}, .run (.dispatcher 0) {},
      .arrive (.deliver 0 (.ofData ⟨1, "", [7]⟩)), .run (.dispatcher 0) {},
      .arrive (.deliver 1 (.ofDialResponse ⟨"", 1, 11⟩)), .run (.dispatcher 1) {},
      .run (.dispatcher 1) {}, .run (.dispatcher 0) {}, .run (.dispatcher 1) {},
      .run (.dispatcher 1) {},
      .arrive (.deliver 1 (.ofData ⟨1, "", [5]⟩)), .run (.dispatcher 1) {}, .run (.dispatcher 1) {},
      .arrive (.deliver 0 (.ofData ⟨1, "", [8, 9]⟩)), .run (.dispatcher 0) {},
      .run (.dispatcher 0) {},
      .arrive (.deliver 0 (.ofCloseResponse ⟨"", 1⟩)), .run (.dispatcher 0) {},
      .run (.dispatcher 0) {}, .run (.dispatcher 0) {}]
  have hrun : ∃ s, run (server cfg).step newServer acts = some s ∧
      handed 0 1 s.shared.log = conversation.map (fun pkt => (proxyFrontend "x", pkt)) ∧
      (received 0 s.shared.log).countP (Packet.opens 1) ≤ 1 := ⟨_, rfl, by decide, by decide⟩
  obtain ⟨s, hs, hhanded, honce⟩ := hrun
  have hreach : Reach (server cfg).step
      (System.Allowed (Forwards cfg) fun _ _ => True) newServer s :=
    reach_of_run hs (by decide)
  exact ⟨s, hreach, hhanded, dispatcher_forwards hreach (by decide) honce⟩

end Konnectivity
