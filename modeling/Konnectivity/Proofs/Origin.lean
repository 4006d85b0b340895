import Konnectivity.Server.Machine
import Konnectivity.Proofs.Tables

/-!
# Where everything in the server comes from

The history explains the state: every pending dial and every established
connection stems from a dial that was handed to a backend, an operation of a
dispatcher stems from a packet its stream delivered, an operation of a
handler from a packet its frontend sent. All of these statements say that
some event is in the log, and the log only grows, so each survives every step
of every other goroutine. They hold in every run, whatever the agents and
the frontends send.
-/

namespace Konnectivity

open Lib

/-! ## Reading the history -/

/-- The frontend asked for the dial. -/
def Requested (log : List Event) (f : Frontend) (r : DialID) : Prop :=
  ∃ pkt, .fromFrontend f pkt ∈ log ∧ pkt.requestsDial = some r

/-- The frontend withdrew the dial. -/
def Cancelled (log : List Event) (f : Frontend) (r : DialID) : Prop :=
  ∃ pkt, .fromFrontend f pkt ∈ log ∧ pkt.type = .dialCls ∧ pkt.answersDial = some r

/-- The dial is one of `dialBackend`. -/
def ConnDialed (log : List Event) (r : DialID) : Prop :=
  ∃ f b, f.stream = .serverConn r ∧ .dialing f b r ∈ log

/-- The agent stream reported the connection for the dial. -/
def Reported (log : List Event) (b : BackendId) (r : DialID) (c : ConnectID) : Prop :=
  ∃ pkt, .fromBackend b pkt ∈ log ∧ pkt.reportsConn = some (r, c)

/-- The entry stands for a dial that a frontend has over a backend. -/
def Origin (log : List Event) (p : ProxyClientConnection) : Prop :=
  ∃ f b, p.frontend = some f ∧ p.backend = some b ∧ .dialing f b p.dialID ∈ log

/-- The frontend has the dial. -/
def HasDial (log : List Event) (f : Frontend) (r : DialID) : Prop :=
  Requested log f r ∨ ∃ b, .dialing f b r ∈ log

/-! ## What an operation stems from -/

def AfterRemove.Origin (log : List Event) (t : Tid) (r : DialID) : AfterRemove → Prop
  | .dialRsp b resp pkt =>
      t = .dispatcher b ∧ resp.random = r ∧ pkt.type = .dialRsp ∧
        pkt.payload = some (.dialResponse resp) ∧ .fromBackend b pkt ∈ log
  | .dialCls pkt => pkt.type = .dialCls ∧ pkt.payload = some (.closeDial ⟨r⟩)
  | .sendFailed f _ => t = f.tid ∧ f.stream = .proxy ∧ ∃ b, .dialing f b r ∈ log
  | .cancel => ∃ f, t = .proxy f.streamUID ∧ Cancelled log f r
  | .timeout f => f.stream = .proxy ∧ ∃ b, .dialing f b r ∈ log
  | .failDial b _ => t = .dialer r ∧ ∃ f, f.stream = .serverConn r ∧ .dialing f b r ∈ log
  | .closeConn => t.closes r ∧ ConnDialed log r

def AfterEstablished.Origin (cfg : ServerConfig) (log : List Event) (t : Tid) (a : AgentID)
    (c : ConnectID) : AfterEstablished → Prop
  | .undo b r => t = .dispatcher b ∧ a = cfg.agentID b ∧ Reported log b r c
  | .closeRsp pkt => ∃ b, t = .dispatcher b ∧ a = cfg.agentID b ∧ .fromBackend b pkt ∈ log ∧
      pkt.type = .closeRsp ∧ pkt.belongsTo = some c
  | .closeConn b r => t.closes r ∧ a = cfg.agentID b ∧
      ∃ f, f.stream = .serverConn r ∧ .dialing f b r ∈ log

def AfterFrontend.Origin (log : List Event) (t : Tid) (pkt : Packet) : AfterFrontend → Prop
  | .done => True
  | .dialRsp b resp => t = .dispatcher b ∧ resp.error = "" ∧ pkt.type = .dialRsp ∧
      pkt.payload = some (.dialResponse resp) ∧ .fromBackend b pkt ∈ log

def AfterBackend.Origin (log : List Event) (t : Tid) (b : BackendId) (pkt : Packet) :
    AfterBackend → Prop
  | .done => pkt.requestsDial = none
  | .dialReq f r => t = f.tid ∧ f.stream = .proxy ∧ .dialing f b r ∈ log ∧
      pkt.requestsDial = some r
  | .closeReq f _ => t = f.tid ∧ f.stream = .proxy ∧ pkt.requestsDial = none
  | .dialBackend r => t = .dialer r ∧ pkt.requestsDial = some r ∧
      ∃ f, f.stream = .serverConn r ∧ .dialing f b r ∈ log

/-- What stands behind an operation of goroutine `t`. -/
def Op.Origin (cfg : ServerConfig) (log : List Event) (t : Tid) : Op → Prop
  | .pendingAdd r p => p.dialID = r ∧ Konnectivity.Origin log p ∧
      ∀ f, p.frontend = some f → t = f.tid
  | .pendingRemove r k => k.Origin log t r
  | .pendingRemoveForBackend b => t = .dispatcher b
  | .pendingRemoveForStream u => t = .proxy u ∧ u ≠ ""
  | .addEstablished b c p => t = .dispatcher b ∧ p.connectID = c ∧ p.agentID = cfg.agentID b ∧
      Konnectivity.Origin log p ∧ Reported log b p.dialID c
  | .closeWithBackend f b => t = .dispatcher b ∧
      ∃ f', f = some f' ∧ ∀ r, f'.stream = .serverConn r → ConnDialed log r
  | .removeEstablished a c k => k.Origin cfg log t a c
  | .getFrontend b c pkt => t = .dispatcher b ∧ .fromBackend b pkt ∈ log ∧
      pkt.type = .data ∧ pkt.belongsTo = some c
  | .removeEstablishedForBackendConn b => t = .dispatcher b
  | .removeEstablishedForStream u => t = .proxy u ∧ u ≠ ""
  | .sendFrontend f pkt k => k.Origin log t pkt ∧
      ∃ f', f = some f' ∧ ∀ r, pkt.answersDial = some r → HasDial log f' r
  | .sendBackend b pkt k => ∃ b', b = some b' ∧ k.Origin log t b' pkt
  | .queueSend _ pkt => pkt.requestsDial = none
  | .observeClosed _ => True
  | .exitDispatcher b => t = .dispatcher b
  | .selectBackend f req pkt => t = f.tid ∧ f.stream = .proxy ∧ .fromFrontend f pkt ∈ log ∧
      pkt.requestsDial = some req.random
  | .startPendingDialTimeout r b f => t = f.tid ∧ f.stream = .proxy ∧ .dialing f b r ∈ log
  | .waitTimer r b f => f.stream = .proxy ∧ .dialing f b r ∈ log
  | .returnLoop u => t = .proxy u
  | .handlerReturn u => t = .proxy u
  | .awaitDial r => t = .dialer r ∧ ConnDialed log r
  | .closeOnce r => t.closes r ∧ ConnDialed log r
  | .closeMark r => t.closes r ∧ ConnDialed log r
  | .closeFinish r => t.closes r ∧ ConnDialed log r
  | .dialReturn r _ => t = .dialer r ∧ ConnDialed log r

/-- What stands behind the tables and the in-process connections. -/
structure SharedOrigin (cfg : ServerConfig) (s : ServerState) : Prop where
  pending : ∀ r p, s.pendingDial.pendingDial.lookup r = some p → p.dialID = r ∧ Origin s.log p
  established : ∀ a c p, s.established.getFrontend a c = some p →
    p.agentID = a ∧ p.connectID = c ∧ Origin s.log p ∧
      ∃ b, cfg.agentID b = a ∧ Reported s.log b p.dialID c
  conn : ∀ r, ConnDialed s.log r →
    ∃ f, f.stream = .serverConn r ∧ .dialing f (s.conns r).backend r ∈ s.log
  watched : ∀ r b, (s.conns r).watched = some b → ConnDialed s.log r
  result : ∀ r ok, (s.conns r).result = some ok → ConnDialed s.log r
  stream : ∀ u, (s.streams u).opened = true → u ≠ ""
  ownConn : ∀ f b r, .dialing f b r ∈ s.log → ∀ r', f.stream = .serverConn r' → r' = r

/-! ## The log only grows -/

section Mono

variable {cfg : ServerConfig} {log log' : List Event} {t : Tid}

theorem Requested.mono (hsub : log ⊆ log') {f : Frontend} {r : DialID}
    (h : Requested log f r) : Requested log' f r := by
  obtain ⟨pkt, hp, hr⟩ := h
  exact ⟨pkt, hsub hp, hr⟩

theorem Reported.mono (hsub : log ⊆ log') {b : BackendId} {r : DialID} {c : ConnectID}
    (h : Reported log b r c) : Reported log' b r c := by
  obtain ⟨pkt, hp, hr⟩ := h
  exact ⟨pkt, hsub hp, hr⟩

theorem ConnDialed.mono (hsub : log ⊆ log') {r : DialID} (h : ConnDialed log r) :
    ConnDialed log' r := by
  obtain ⟨f, b, hf, hd⟩ := h
  exact ⟨f, b, hf, hsub hd⟩

theorem Origin.mono (hsub : log ⊆ log') {p : ProxyClientConnection} (h : Origin log p) :
    Origin log' p := by
  obtain ⟨f, b, hf, hb, hd⟩ := h
  exact ⟨f, b, hf, hb, hsub hd⟩

theorem HasDial.mono (hsub : log ⊆ log') {f : Frontend} {r : DialID} (h : HasDial log f r) :
    HasDial log' f r := by
  rcases h with h | ⟨b, hd⟩
  · exact Or.inl (h.mono hsub)
  · exact Or.inr ⟨b, hsub hd⟩

theorem AfterRemove.Origin.mono (hsub : log ⊆ log') {r : DialID} {k : AfterRemove}
    (h : k.Origin log t r) : k.Origin log' t r := by
  cases k with
  | dialRsp b resp pkt => exact ⟨h.1, h.2.1, h.2.2.1, h.2.2.2.1, hsub h.2.2.2.2⟩
  | dialCls pkt => exact h
  | sendFailed f err =>
      obtain ⟨ht, hf, b, hd⟩ := h
      exact ⟨ht, hf, b, hsub hd⟩
  | cancel =>
      obtain ⟨f, ht, pkt, hp, hr⟩ := h
      exact ⟨f, ht, pkt, hsub hp, hr⟩
  | timeout f =>
      obtain ⟨hf, b, hd⟩ := h
      exact ⟨hf, b, hsub hd⟩
  | failDial b tell =>
      obtain ⟨ht, f, hf, hd⟩ := h
      exact ⟨ht, f, hf, hsub hd⟩
  | closeConn => exact ⟨h.1, h.2.mono hsub⟩

theorem AfterEstablished.Origin.mono (hsub : log ⊆ log') {a : AgentID} {c : ConnectID}
    {k : AfterEstablished} (h : k.Origin cfg log t a c) : k.Origin cfg log' t a c := by
  cases k with
  | undo b r => exact ⟨h.1, h.2.1, h.2.2.mono hsub⟩
  | closeRsp pkt =>
      obtain ⟨b, ht, ha, hp, hk⟩ := h
      exact ⟨b, ht, ha, hsub hp, hk⟩
  | closeConn b r =>
      obtain ⟨ht, ha, f, hf, hd⟩ := h
      exact ⟨ht, ha, f, hf, hsub hd⟩

theorem AfterFrontend.Origin.mono (hsub : log ⊆ log') {pkt : Packet} {k : AfterFrontend}
    (h : k.Origin log t pkt) : k.Origin log' t pkt := by
  cases k with
  | done => exact h
  | dialRsp b resp => exact ⟨h.1, h.2.1, h.2.2.1, h.2.2.2.1, hsub h.2.2.2.2⟩

theorem AfterBackend.Origin.mono (hsub : log ⊆ log') {b : BackendId} {pkt : Packet}
    {k : AfterBackend} (h : k.Origin log t b pkt) : k.Origin log' t b pkt := by
  cases k with
  | done => exact h
  | dialReq f r => exact ⟨h.1, h.2.1, hsub h.2.2.1, h.2.2.2⟩
  | closeReq f c => exact h
  | dialBackend r =>
      obtain ⟨ht, hp, f, hf, hd⟩ := h
      exact ⟨ht, hp, f, hf, hsub hd⟩

theorem Op.Origin.mono (hsub : log ⊆ log') {op : Op} (h : op.Origin cfg log t) :
    op.Origin cfg log' t := by
  cases op with
  | pendingAdd r p => exact ⟨h.1, h.2.1.mono hsub, h.2.2⟩
  | pendingRemove r k => exact AfterRemove.Origin.mono hsub h
  | addEstablished b c p =>
      exact ⟨h.1, h.2.1, h.2.2.1, h.2.2.2.1.mono hsub, h.2.2.2.2.mono hsub⟩
  | closeWithBackend f b =>
      obtain ⟨ht, f', hf, hc⟩ := h
      exact ⟨ht, f', hf, fun r hr => (hc r hr).mono hsub⟩
  | removeEstablished a c k => exact AfterEstablished.Origin.mono hsub h
  | getFrontend b c pkt => exact ⟨h.1, hsub h.2.1, h.2.2⟩
  | sendFrontend f pkt k =>
      obtain ⟨hk, f', hf, hr⟩ := h
      exact ⟨hk.mono hsub, f', hf, fun r ha => (hr r ha).mono hsub⟩
  | sendBackend b pkt k =>
      obtain ⟨b', hb, hk⟩ := h
      exact ⟨b', hb, hk.mono hsub⟩
  | selectBackend f req pkt => exact ⟨h.1, h.2.1, hsub h.2.2.1, h.2.2.2⟩
  | startPendingDialTimeout r b f => exact ⟨h.1, h.2.1, hsub h.2.2⟩
  | waitTimer r b f => exact ⟨h.1, hsub h.2⟩
  | awaitDial r => exact ⟨h.1, h.2.mono hsub⟩
  | closeOnce r => exact ⟨h.1, h.2.mono hsub⟩
  | closeMark r => exact ⟨h.1, h.2.mono hsub⟩
  | closeFinish r => exact ⟨h.1, h.2.mono hsub⟩
  | dialReturn r ok => exact ⟨h.1, h.2.mono hsub⟩
  | _ => exact h

end Mono

/-! ## Steps that bring in no dial -/

/-- What a step may do without touching any of the origins: lose entries of
the tables, add events other than the start of a dial, and move the
in-process connections that were dialed. -/
structure Harmless (s s₁ : ServerState) : Prop where
  log : s.log ⊆ s₁.log
  dialing : ∀ f b r, .dialing f b r ∈ s₁.log → .dialing f b r ∈ s.log
  pending : ∀ r p, s₁.pendingDial.pendingDial.lookup r = some p →
    s.pendingDial.pendingDial.lookup r = some p
  established : ∀ a c p, s₁.established.getFrontend a c = some p →
    s.established.getFrontend a c = some p
  backend : ∀ r, (s₁.conns r).backend = (s.conns r).backend
  watched : ∀ r b, (s₁.conns r).watched = some b →
    (s.conns r).watched = some b ∨ ConnDialed s.log r
  result : ∀ r ok, (s₁.conns r).result = some ok →
    (s.conns r).result = some ok ∨ ConnDialed s.log r
  opened : ∀ u, (s₁.streams u).opened = (s.streams u).opened

theorem ConnDialed.of_harmless {s s₁ : ServerState} (hs : Harmless s s₁) {r : DialID}
    (h : ConnDialed s₁.log r) : ConnDialed s.log r := by
  obtain ⟨f, b, hf, hd⟩ := h
  exact ⟨f, b, hf, hs.dialing f b r hd⟩

theorem SharedOrigin.harmless {cfg : ServerConfig} {s s₁ : ServerState}
    (h : SharedOrigin cfg s) (hs : Harmless s s₁) : SharedOrigin cfg s₁ where
  pending r p hp :=
    ⟨(h.pending r p (hs.pending r p hp)).1, (h.pending r p (hs.pending r p hp)).2.mono hs.log⟩
  established a c p hp := by
    obtain ⟨ha, hc, ho, b, hb, hr⟩ := h.established a c p (hs.established a c p hp)
    exact ⟨ha, hc, ho.mono hs.log, b, hb, hr.mono hs.log⟩
  conn r hr := by
    obtain ⟨f, hf, hd⟩ := h.conn r (hr.of_harmless hs)
    exact ⟨f, hf, by rw [hs.backend]; exact hs.log hd⟩
  watched r b hw := by
    rcases hs.watched r b hw with hw | hc
    · exact (h.watched r b hw).mono hs.log
    · exact hc.mono hs.log
  result r ok hw := by
    rcases hs.result r ok hw with hw | hc
    · exact (h.result r ok hw).mono hs.log
    · exact hc.mono hs.log
  stream u hu := h.stream u (by rw [← hs.opened]; exact hu)
  ownConn f b r hd r' hf := h.ownConn f b r (hs.dialing f b r hd) r' hf

theorem Harmless.refl (s : ServerState) : Harmless s s where
  log := fun _ h => h
  dialing _ _ _ h := h
  pending _ _ h := h
  established _ _ _ h := h
  backend _ := rfl
  watched _ _ h := Or.inl h
  result _ _ h := Or.inl h
  opened _ := rfl

theorem Harmless.record {s s₁ : ServerState} (h : Harmless s s₁) {e : Event}
    (he : ∀ f b r, e ≠ .dialing f b r) : Harmless s (s₁.record e) :=
  { h with
    log := fun _ hx => List.mem_cons_of_mem _ (h.log hx)
    dialing := fun f b r hd =>
      h.dialing f b r ((List.mem_cons.mp hd).resolve_left fun hc => he f b r hc.symm) }

theorem Harmless.recordAll {s s₁ : ServerState} (h : Harmless s s₁) {es : List Event}
    (he : ∀ e ∈ es, ∀ f b r, e ≠ .dialing f b r) : Harmless s (s₁.recordAll es) :=
  { h with
    log := fun _ hx => List.mem_append_right _ (h.log hx)
    dialing := fun f b r hd =>
      h.dialing f b r ((List.mem_append.mp hd).resolve_left fun hc => he _ hc f b r rfl) }

theorem Harmless.setBackend {s s₁ : ServerState} (h : Harmless s s₁) (b : BackendId)
    (x : BackendState) : Harmless s (s₁.setBackend b x) := { h with }

theorem Harmless.crash {s s₁ : ServerState} (h : Harmless s s₁) (reason : Panic) :
    Harmless s (s₁.crash reason) := { h with }

theorem Harmless.setStream {s s₁ : ServerState} (h : Harmless s s₁) {u : StreamUID}
    {x : StreamState} (hx : x.opened = (s₁.streams u).opened) :
    Harmless s (s₁.setStream u x) :=
  { h with
    opened := fun v => by
      rw [← h.opened]
      by_cases hv : v = u
      · subst hv
        simp only [ServerState.setStream, Function.update_self]
        exact hx
      · simp only [ServerState.setStream, Function.update_of_ne hv] }

theorem Harmless.setConn {s s₁ : ServerState} (h : Harmless s s₁) {r : DialID} {x : ConnState}
    (hb : x.backend = (s₁.conns r).backend)
    (hw : x.watched = (s₁.conns r).watched ∨ ConnDialed s.log r)
    (hr : x.result = (s₁.conns r).result ∨ ConnDialed s.log r) :
    Harmless s (s₁.setConn r x) :=
  { h with
    backend := fun v => by
      rw [← h.backend]
      by_cases hv : v = r
      · subst hv
        simp only [ServerState.setConn, Function.update_self]
        exact hb
      · simp only [ServerState.setConn, Function.update_of_ne hv]
    watched := fun v b hvb => by
      by_cases hv : v = r
      · subst hv
        simp only [ServerState.setConn, Function.update_self] at hvb
        rcases hw with hw | hw
        · exact h.watched v b (hw ▸ hvb)
        · exact Or.inr hw
      · simp only [ServerState.setConn, Function.update_of_ne hv] at hvb
        exact h.watched v b hvb
    result := fun v ok hvb => by
      by_cases hv : v = r
      · subst hv
        simp only [ServerState.setConn, Function.update_self] at hvb
        rcases hr with hr | hr
        · exact h.result v ok (hr ▸ hvb)
        · exact Or.inr hr
      · simp only [ServerState.setConn, Function.update_of_ne hv] at hvb
        exact h.result v ok hvb }

/-! ## Handing a packet to a frontend -/

theorem ConnState.send_frame (c : ConnState) (pkt : Packet) :
    (c.send pkt).1.backend = c.backend ∧ (c.send pkt).1.watched = c.watched ∧
      (c.send pkt).1.result = c.result := by
  unfold ConnState.send
  repeat' split
  all_goals exact ⟨rfl, rfl, rfl⟩

theorem StreamState.send_opened {st st' : StreamState} {pkt : Packet} {ok : Bool}
    (h : st.send pkt ok = .ok st') : st'.opened = st.opened := by
  simp only [StreamState.send] at h
  repeat' split at h
  all_goals cases h
  all_goals rfl

theorem sendFrontend_harmless {s s₁ : ServerState} {t : Tid} {f : Frontend} {pkt : Packet}
    {ok ok' : Bool} (h : s.sendFrontend t f pkt ok = some (s₁, ok')) : Harmless s s₁ := by
  simp only [ServerState.sendFrontend] at h
  split at h
  · next r hf =>
      injection h with h
      injection h with h
      subst h
      obtain ⟨hb, hw, hr⟩ := (s.conns r).send_frame pkt
      exact ((Harmless.refl s).setConn hb (.inl hw) (.inl hr)).record (by simp)
  · split at h
    · cases h
    · split at h
      · injection h with h
        injection h with h
        subst h
        exact (Harmless.refl s).crash _
      · next st hst =>
          injection h with h
          injection h with h
          subst h
          exact ((Harmless.refl s).setStream (StreamState.send_opened hst)).record (by simp)

/-! ## Continuations -/

section Next

variable {cfg : ServerConfig} {log : List Event} {t : Tid} {r : DialID}

theorem reported_of_payload {b : BackendId} {pkt : Packet} {resp : DialResponse}
    (htype : pkt.type = .dialRsp) (hpay : pkt.payload = some (.dialResponse resp))
    (herr : resp.error = "") (hlog : .fromBackend b pkt ∈ log) :
    Reported log b resp.random resp.connectID :=
  ⟨pkt, hlog, by simp [Packet.reportsConn, htype, hpay, herr]⟩

theorem Origin.hasDial {p : ProxyClientConnection} (h : Konnectivity.Origin log p) :
    ∃ f, p.frontend = some f ∧ HasDial log f p.dialID := by
  obtain ⟨f, b, hf, -, hd⟩ := h
  exact ⟨f, hf, Or.inr ⟨b, hd⟩⟩

theorem answersDial_failure (r : DialID) (err : String) :
    (Packet.newDialFailure r err).answersDial = some r := rfl

theorem AfterRemove.next_origin {k : AfterRemove} {pd : Option ProxyClientConnection}
    (hk : k.Origin log t r)
    (hpd : ∀ p, pd = some p → p.dialID = r ∧ Konnectivity.Origin log p)
    (hconn : ∀ f b r, .dialing f b r ∈ log → ∀ r', f.stream = .serverConn r' → r' = r) :
    ∀ o ∈ k.next cfg.agentID r pd, o.Origin cfg log t := by
  cases k with
  | dialRsp b resp pkt =>
      obtain ⟨rfl, hr, htype, hpay, hlog⟩ := hk
      cases pd with
      | none =>
          simp only [AfterRemove.next]
          split
          · intro o ho
            rw [List.mem_singleton] at ho
            subst ho
            exact ⟨b, rfl, rfl⟩
          · intro o ho
            cases ho
      | some p =>
          obtain ⟨hid, horigin⟩ := hpd p rfl
          have hans : ∀ x, pkt.answersDial = some x → x = p.dialID := by
            intro x hx
            simp only [Packet.answersDial, htype, hpay, Option.some.injEq] at hx
            rw [← hx, hr, hid]
          obtain ⟨f, hf, hdial⟩ := horigin.hasDial
          simp only [AfterRemove.next]
          split
          · intro o ho
            rw [List.mem_singleton] at ho
            subst ho
            exact ⟨trivial, f, hf, fun x hx => hans x hx ▸ hdial⟩
          · next herr =>
              have herr' : resp.error = "" := by simpa using herr
              intro o ho
              simp only [List.mem_cons, List.not_mem_nil, or_false] at ho
              rcases ho with rfl | rfl | rfl
              · refine ⟨rfl, rfl, rfl, horigin, ?_⟩
                have hrep := reported_of_payload htype hpay herr' hlog
                rw [hr, ← hid] at hrep
                exact hrep
              · refine ⟨rfl, f, hf, fun x hx => ?_⟩
                obtain ⟨f', b', hf', hb', hd⟩ := horigin
                rw [hf] at hf'
                injection hf' with hf'
                subst hf'
                have := hconn f b' p.dialID hd x hx
                exact ⟨f, b', hx, this ▸ hd⟩
              · exact ⟨⟨rfl, herr', htype, hpay, hlog⟩, f, hf, fun x hx => hans x hx ▸ hdial⟩
  | dialCls pkt =>
      cases pd with
      | none => simp [AfterRemove.next]
      | some p =>
          obtain ⟨hid, horigin⟩ := hpd p rfl
          obtain ⟨f, hf, hdial⟩ := horigin.hasDial
          intro o ho
          simp only [AfterRemove.next, List.mem_singleton] at ho
          subst ho
          refine ⟨trivial, f, hf, fun x hx => ?_⟩
          simp only [Packet.answersDial, hk.1, hk.2, Option.some.injEq] at hx
          rw [← hx, ← hid]
          exact hdial
  | sendFailed f err =>
      cases pd with
      | none => simp [AfterRemove.next]
      | some p =>
          obtain ⟨ht, hf, b, hd⟩ := hk
          intro o ho
          simp only [AfterRemove.next, List.mem_cons, List.not_mem_nil, or_false] at ho
          rcases ho with rfl | rfl
          · refine ⟨trivial, f, rfl, fun x hx => ?_⟩
            rw [answersDial_failure] at hx
            injection hx with hx
            subst hx
            exact Or.inr ⟨b, hd⟩
          · simp only [Op.Origin, ht, Frontend.tid, hf]
  | cancel => cases pd <;> simp [AfterRemove.next]
  | timeout f =>
      cases pd with
      | none => simp [AfterRemove.next]
      | some p =>
          obtain ⟨hf, b, hd⟩ := hk
          intro o ho
          simp only [AfterRemove.next, List.mem_singleton] at ho
          subst ho
          refine ⟨trivial, f, rfl, fun x hx => ?_⟩
          rw [answersDial_failure] at hx
          injection hx with hx
          subst hx
          exact Or.inr ⟨b, hd⟩
  | failDial b tell =>
      cases pd with
      | none => simp [AfterRemove.next]
      | some p =>
          intro o ho
          simp only [AfterRemove.next] at ho
          split at ho
          · rw [List.mem_singleton] at ho
            subst ho
            rfl
          · cases ho
  | closeConn => cases pd <;> simp [AfterRemove.next]

theorem AfterEstablished.next_origin {k : AfterEstablished} {a : AgentID} {c : ConnectID}
    {pd : Option ProxyClientConnection} (hk : k.Origin cfg log t a c)
    (hpd : ∀ p, pd = some p → Konnectivity.Origin log p) :
    ∀ o ∈ k.next c pd, o.Origin cfg log t := by
  cases k with
  | undo b r =>
      cases pd <;> intro o ho <;>
        simp only [AfterEstablished.next, List.mem_cons, List.not_mem_nil, or_false] at ho
      · subst ho
        exact ⟨b, rfl, rfl⟩
      · rcases ho with rfl | rfl
        · trivial
        · exact ⟨b, rfl, rfl⟩
  | closeRsp pkt =>
      cases pd with
      | none => simp [AfterEstablished.next]
      | some p =>
          obtain ⟨f, hf, -⟩ := (hpd p rfl).hasDial
          obtain ⟨b, -, -, -, htype, -⟩ := hk
          intro o ho
          simp only [AfterEstablished.next, List.mem_cons, List.not_mem_nil, or_false] at ho
          rcases ho with rfl | rfl
          · trivial
          · refine ⟨trivial, f, hf, fun x hx => ?_⟩
            simp [Packet.answersDial, htype] at hx
  | closeConn b r =>
      cases pd <;> intro o ho <;>
        simp only [AfterEstablished.next, List.mem_cons, List.not_mem_nil, or_false] at ho
      rcases ho with rfl | rfl
      · trivial
      · rfl

theorem AfterBackend.next_origin {k : AfterBackend} {b : BackendId} {pkt : Packet}
    {err : String} (ok : Bool) (hk : k.Origin log t b pkt) :
    ∀ o ∈ k.next b err ok, o.Origin cfg log t := by
  cases k with
  | done => cases ok <;> simp [AfterBackend.next]
  | dialReq f r =>
      obtain ⟨ht, hf, hd, -⟩ := hk
      cases ok <;> intro o ho <;> simp only [AfterBackend.next, List.mem_singleton] at ho <;>
        subst ho
      · exact ⟨ht, hf, b, hd⟩
      · exact ⟨ht, hf, hd⟩
  | closeReq f c =>
      obtain ⟨ht, hf, -⟩ := hk
      have hret : (Op.returnLoop f.streamUID).Origin cfg log t := by
        simp only [Op.Origin, ht, Frontend.tid, hf]
      cases ok <;> intro o ho <;>
        simp only [AfterBackend.next, List.mem_cons, List.not_mem_nil, or_false] at ho
      · rcases ho with rfl | rfl
        · exact ⟨trivial, f, rfl, fun x hx => nomatch hx⟩
        · exact hret
      · subst ho
        exact hret
  | dialBackend r =>
      obtain ⟨rfl, -, f, hf, hd⟩ := hk
      cases ok <;> intro o ho <;>
        simp only [AfterBackend.next, List.mem_cons, List.not_mem_nil, or_false] at ho
      · rcases ho with rfl | rfl | rfl
        · exact ⟨rfl, f, hf, hd⟩
        · exact ⟨Or.inl rfl, f, b, hf, hd⟩
        · exact ⟨rfl, f, b, hf, hd⟩
      · subst ho
        exact ⟨rfl, f, b, hf, hd⟩

theorem DialCase.next_origin {f : Frontend} {b : BackendId} (hf : f.stream = .serverConn r)
    (hd : .dialing f b r ∈ log) (k : DialCase) :
    ∀ o ∈ k.next b r, o.Origin cfg log (.dialer r) := by
  cases k <;> intro o ho <;>
    simp only [DialCase.next, List.mem_cons, List.not_mem_nil, or_false] at ho
  case connected =>
    subst ho
    exact ⟨rfl, f, b, hf, hd⟩
  case dialErr =>
    rcases ho with rfl | rfl
    · exact ⟨Or.inl rfl, f, b, hf, hd⟩
    · exact ⟨rfl, f, b, hf, hd⟩
  all_goals
    rcases ho with rfl | rfl | rfl
    · exact ⟨rfl, f, hf, hd⟩
    · exact ⟨Or.inl rfl, f, b, hf, hd⟩
    · exact ⟨rfl, f, b, hf, hd⟩

end Next

/-! ## One operation -/

section Exec

variable {cfg : ServerConfig} {s s₁ : ServerState} {t : Tid} {c : Choice} {ops : List Op}
  {start : Option (Tid × List Op)}

/-- What an operation promises about origins. -/
def ExecOrigin (cfg : ServerConfig) (s s₁ : ServerState) (t : Tid) (ops : List Op)
    (start : Option (Tid × List Op)) : Prop :=
  SharedOrigin cfg s₁ ∧ s.log ⊆ s₁.log ∧ (∀ o ∈ ops, o.Origin cfg s₁.log t) ∧
    System.StartOk (fun t o => o.Origin cfg s₁.log t) start

theorem ExecOrigin.of_harmless (h : SharedOrigin cfg s) (hs : Harmless s s₁)
    (hops : ∀ o ∈ ops, o.Origin cfg s₁.log t) : ExecOrigin cfg s s₁ t ops none :=
  ⟨h.harmless hs, hs.log, hops, trivial⟩

theorem SharedOrigin.pendingAdd (h : SharedOrigin cfg s) {r : DialID}
    {p : ProxyClientConnection} (hr : p.dialID = r) (hp : Konnectivity.Origin s.log p) :
    SharedOrigin cfg { s with pendingDial := s.pendingDial.add r p } :=
  { h with
    pending := fun r' p' hp' => by
      rw [PendingDialManager.add_lookup] at hp'
      split at hp'
      · next hrr =>
          injection hp' with hp'
          subst hp'
          exact ⟨by rw [hr, hrr], hp⟩
      · exact h.pending r' p' hp' }

theorem SharedOrigin.addEstablished (h : SharedOrigin cfg s) {b : BackendId} {cid : ConnectID}
    {p : ProxyClientConnection} (hc : p.connectID = cid) (ha : p.agentID = cfg.agentID b)
    (ho : Konnectivity.Origin s.log p) (hr : Reported s.log b p.dialID cid) :
    SharedOrigin cfg { s with established := s.established.add (cfg.agentID b) cid p } :=
  { h with
    established := fun a c' p' hp' => by
      rw [Established.add_get] at hp'
      split at hp'
      · next hac =>
          injection hp' with hp'
          subst hp'
          exact ⟨by rw [ha, hac.1], by rw [hc, hac.2], ho, b, hac.1.symm, hac.2 ▸ hr⟩
      · exact h.established a c' p' hp' }

/-- A frontend's dial goes to a backend. -/
theorem SharedOrigin.dialing (h : SharedOrigin cfg s) {f : Frontend} (hf : f.stream = .proxy)
    (b : BackendId) (r : DialID) : SharedOrigin cfg (s.record (.dialing f b r)) := by
  have hsub : s.log ⊆ (s.record (.dialing f b r)).log := fun _ hx => List.mem_cons_of_mem _ hx
  have hold : ∀ f' b' r', .dialing f' b' r' ∈ (s.record (.dialing f b r)).log →
      (∃ x, f'.stream = .serverConn x) → .dialing f' b' r' ∈ s.log := by
    rintro f' b' r' hd ⟨x, hx⟩
    refine (List.mem_cons.mp hd).resolve_left fun heq => ?_
    injection heq with heq
    rw [heq, hf] at hx
    cases hx
  exact
    { pending := fun r' p hp => ⟨(h.pending r' p hp).1, (h.pending r' p hp).2.mono hsub⟩
      established := fun a c p hp => by
        obtain ⟨ha, hc, ho, b', hb, hr⟩ := h.established a c p hp
        exact ⟨ha, hc, ho.mono hsub, b', hb, hr.mono hsub⟩
      conn := fun r' ⟨f', b', hf', hd⟩ => by
        obtain ⟨f'', hf'', hd''⟩ := h.conn r' ⟨f', b', hf', hold f' b' r' hd ⟨_, hf'⟩⟩
        exact ⟨f'', hf'', hsub hd''⟩
      watched := fun r' b' hw => (h.watched r' b' hw).mono hsub
      result := fun r' ok hw => (h.result r' ok hw).mono hsub
      stream := h.stream
      ownConn := fun f' b' r' hd r'' hf' =>
        h.ownConn f' b' r' (hold f' b' r' hd ⟨_, hf'⟩) r'' hf' }

theorem pendingRemove_origin (h : SharedOrigin cfg s) {r : DialID} {k : AfterRemove}
    (hop : (Op.pendingRemove r k).Origin cfg s.log t)
    (hex : exec cfg s t c (.pendingRemove r k) = some (s₁, ops, start)) :
    ExecOrigin cfg s s₁ t ops start := by
  simp only [exec, Option.some.injEq, Prod.mk.injEq] at hex
  obtain ⟨rfl, rfl, rfl⟩ := hex
  refine .of_harmless h ?_ (AfterRemove.next_origin hop ?_ h.ownConn)
  · refine { Harmless.refl s with pending := fun r' p hp => ?_ }
    rw [PendingDialManager.remove_lookup] at hp
    split at hp
    · cases hp
    · exact hp
  · intro p hp
    rw [PendingDialManager.remove_fst] at hp
    exact h.pending r p hp

theorem pendingRemoveForBackend_origin (h : SharedOrigin cfg s) {b : BackendId}
    (hex : exec cfg s t c (.pendingRemoveForBackend b) = some (s₁, ops, start)) :
    ExecOrigin cfg s s₁ t ops start := by
  simp only [exec] at hex
  split at hex
  · next hperm =>
      simp only [Option.some.injEq, Prod.mk.injEq] at hex
      obtain ⟨rfl, rfl, rfl⟩ := hex
      refine .of_harmless h (.record ?_ (by simp)) ?_
      · refine { Harmless.refl s with pending := fun r' p hp => ?_ }
        rw [PendingDialManager.removeForBackend_lookup] at hp
        exact (Option.filter_eq_some_iff.mp hp).1
      · intro o ho
        obtain ⟨p, hp, rfl⟩ := List.mem_map.mp ho
        obtain ⟨r, hr, -⟩ := PendingDialManager.mem_removeForBackend.mp (hperm.subset hp)
        obtain ⟨f, hf, hd⟩ := (h.pending r p hr).2.hasDial
        refine ⟨trivial, f, hf, fun x hx => ?_⟩
        rw [answersDial_failure] at hx
        injection hx with hx
        exact hx ▸ hd.mono (fun _ hx => List.mem_cons_of_mem _ hx)
  · cases hex

theorem pendingRemoveForStream_origin (h : SharedOrigin cfg s) {u : StreamUID}
    (hop : (Op.pendingRemoveForStream u).Origin cfg s.log t)
    (hex : exec cfg s t c (.pendingRemoveForStream u) = some (s₁, ops, start)) :
    ExecOrigin cfg s s₁ t ops start := by
  obtain ⟨rfl, hu⟩ := hop
  simp only [exec] at hex
  split at hex
  · next hperm =>
      simp only [Option.some.injEq, Prod.mk.injEq] at hex
      obtain ⟨rfl, rfl, rfl⟩ := hex
      refine .of_harmless h ?_ ?_
      · refine { Harmless.refl s with pending := fun r' p hp => ?_ }
        rw [PendingDialManager.removeForStream_lookup hu] at hp
        exact (Option.filter_eq_some_iff.mp hp).1
      · intro o ho
        obtain ⟨p, hp, rfl⟩ := List.mem_map.mp ho
        obtain ⟨r, hr, -⟩ := (PendingDialManager.mem_removeForStream hu).mp (hperm.subset hp)
        obtain ⟨f, b, -, hb, -⟩ := (h.pending r p hr).2
        exact ⟨b, hb, rfl⟩
  · cases hex

theorem addEstablished_origin (h : SharedOrigin cfg s) {b : BackendId} {cid : ConnectID}
    {p : ProxyClientConnection} (hop : (Op.addEstablished b cid p).Origin cfg s.log t)
    (hex : exec cfg s t c (.addEstablished b cid p) = some (s₁, ops, start)) :
    ExecOrigin cfg s s₁ t ops start := by
  obtain ⟨rfl, hc, ha, ho, hr⟩ := hop
  simp only [exec, Option.some.injEq, Prod.mk.injEq] at hex
  obtain ⟨rfl, rfl, rfl⟩ := hex
  have hadd := h.addEstablished hc ha ho hr
  split
  · exact ⟨hadd.harmless ((Harmless.refl _).record (by simp)),
      fun _ hx => List.mem_cons_of_mem _ hx, by simp, trivial⟩
  · exact ⟨hadd.harmless (((Harmless.refl _).record (by simp)).record (by simp)),
      fun _ hx => List.mem_cons_of_mem _ (List.mem_cons_of_mem _ hx), by simp, trivial⟩

theorem closeWithBackend_origin (h : SharedOrigin cfg s) {f : Option Frontend} {b : BackendId}
    (hop : (Op.closeWithBackend f b).Origin cfg s.log t)
    (hex : exec cfg s t c (.closeWithBackend f b) = some (s₁, ops, start)) :
    ExecOrigin cfg s s₁ t ops start := by
  obtain ⟨rfl, f, rfl, hconn⟩ := hop
  simp only [exec] at hex
  split at hex
  · simp only [Option.some.injEq, Prod.mk.injEq] at hex
    obtain ⟨rfl, rfl, rfl⟩ := hex
    exact .of_harmless h (.refl _) (by simp)
  · next r hf =>
      simp only [Option.some.injEq, Prod.mk.injEq] at hex
      obtain ⟨rfl, rfl, rfl⟩ := hex
      exact .of_harmless h ((Harmless.refl s).setConn rfl (.inr (hconn r hf)) (.inl rfl))
        (by simp)

theorem removeEstablished_origin (h : SharedOrigin cfg s) {a : AgentID} {cid : ConnectID}
    {k : AfterEstablished} (hop : (Op.removeEstablished a cid k).Origin cfg s.log t)
    (hex : exec cfg s t c (.removeEstablished a cid k) = some (s₁, ops, start)) :
    ExecOrigin cfg s s₁ t ops start := by
  have hget : ∀ a' c' p, (s.established.remove a cid).2.getFrontend a' c' = some p →
      s.established.getFrontend a' c' = some p := by
    intro a' c' p hp
    rw [Established.remove_get] at hp
    split at hp
    · cases hp
    · exact hp
  have hbase : Harmless s { s with established := (s.established.remove a cid).2 } :=
    { Harmless.refl s with established := hget }
  simp only [exec] at hex
  split at hex
  · simp only [Option.some.injEq, Prod.mk.injEq] at hex
    obtain ⟨rfl, rfl, rfl⟩ := hex
    exact .of_harmless h hbase (AfterEstablished.next_origin hop (by simp))
  · next p hp =>
      simp only [Option.some.injEq, Prod.mk.injEq] at hex
      obtain ⟨rfl, rfl, rfl⟩ := hex
      have hs := hbase.record (e := .removed t a cid p) (by simp)
      refine .of_harmless h hs (AfterEstablished.next_origin (hop.mono hs.log) ?_)
      intro q hq
      injection hq with hq
      subst hq
      rw [Established.remove_fst] at hp
      exact (h.established a cid p hp).2.2.1.mono hs.log

theorem getFrontend_origin (h : SharedOrigin cfg s) {b : BackendId} {cid : ConnectID} {pkt : Packet}
    (hop : (Op.getFrontend b cid pkt).Origin cfg s.log t)
    (hex : exec cfg s t c (.getFrontend b cid pkt) = some (s₁, ops, start)) :
    ExecOrigin cfg s s₁ t ops start := by
  obtain ⟨rfl, hlog, htype, -⟩ := hop
  simp only [exec] at hex
  split at hex
  · simp only [Option.some.injEq, Prod.mk.injEq] at hex
    obtain ⟨rfl, rfl, rfl⟩ := hex
    refine .of_harmless h (.refl _) fun o ho => ?_
    rw [List.mem_singleton] at ho
    subst ho
    exact ⟨b, rfl, rfl⟩
  · next p hp =>
      simp only [Option.some.injEq, Prod.mk.injEq] at hex
      obtain ⟨rfl, rfl, rfl⟩ := hex
      obtain ⟨f, hf, -⟩ := (h.established _ _ p hp).2.2.1.hasDial
      refine .of_harmless h (.refl _) fun o ho => ?_
      rw [List.mem_singleton] at ho
      subst ho
      refine ⟨trivial, f, hf, fun x hx => ?_⟩
      simp [Packet.answersDial, htype] at hx

theorem removeEstablishedForBackendConn_origin (h : SharedOrigin cfg s) {b : BackendId}
    (hex : exec cfg s t c (.removeEstablishedForBackendConn b) = some (s₁, ops, start)) :
    ExecOrigin cfg s s₁ t ops start := by
  have hbase : Harmless s
      { s with established := (s.established.removeForBackendConn (cfg.agentID b) b).2 } := by
    refine { Harmless.refl s with established := fun a' c' p hp => ?_ }
    rw [Established.removeForBackendConn_get] at hp
    split at hp
    · exact (Option.filter_eq_some_iff.mp hp).1
    · exact hp
  simp only [exec] at hex
  split at hex
  · simp only [Option.some.injEq, Prod.mk.injEq] at hex
    obtain ⟨rfl, rfl, rfl⟩ := hex
    exact .of_harmless h (hbase.record (by simp)) (by simp)
  · next ret hret =>
      split at hex
      · next hperm =>
          simp only [Option.some.injEq, Prod.mk.injEq] at hex
          obtain ⟨rfl, rfl, rfl⟩ := hex
          refine .of_harmless h ((hbase.record (by simp)).recordAll (by simp)) ?_
          intro o ho
          rcases List.mem_append.mp ho with ho | ho
          · split at ho
            · rw [List.mem_singleton] at ho
              subst ho
              trivial
            · cases ho
          · obtain ⟨p, hp, rfl⟩ := List.mem_map.mp ho
            obtain ⟨c', hc', -⟩ :=
              (Established.mem_removeForBackendConn hret).mp (hperm.subset hp)
            obtain ⟨f, hf, -⟩ := (h.established _ _ p hc').2.2.1.hasDial
            exact ⟨trivial, f, hf, fun x hx => nomatch hx⟩
      · cases hex

theorem removeEstablishedForStream_origin (h : SharedOrigin cfg s) {u : StreamUID}
    (hop : (Op.removeEstablishedForStream u).Origin cfg s.log t)
    (hex : exec cfg s t c (.removeEstablishedForStream u) = some (s₁, ops, start)) :
    ExecOrigin cfg s s₁ t ops start := by
  obtain ⟨rfl, hu⟩ := hop
  have hbase : Harmless s { s with established := (s.established.removeForStream u).2 } := by
    refine { Harmless.refl s with established := fun a' c' p hp => ?_ }
    rw [Established.removeForStream_get hu] at hp
    exact (Option.filter_eq_some_iff.mp hp).1
  simp only [exec] at hex
  split at hex
  · next hperm =>
      simp only [Option.some.injEq, Prod.mk.injEq] at hex
      obtain ⟨rfl, rfl, rfl⟩ := hex
      refine .of_harmless h ((hbase.record (by simp)).recordAll (by simp)) ?_
      intro o ho
      obtain ⟨p, hp, ho⟩ := List.mem_flatMap.mp ho
      obtain ⟨a', c', hc', -⟩ := (Established.mem_removeForStream hu).mp (hperm.subset hp)
      obtain ⟨f, b, -, hb, -⟩ := (h.established _ _ p hc').2.2.1
      simp only [List.mem_cons, List.not_mem_nil, or_false] at ho
      rcases ho with rfl | rfl
      · trivial
      · exact ⟨b, hb, rfl⟩
  · cases hex

theorem sendFrontend_origin (h : SharedOrigin cfg s) {f : Option Frontend} {pkt : Packet}
    {k : AfterFrontend} (hop : (Op.sendFrontend f pkt k).Origin cfg s.log t)
    (hex : exec cfg s t c (.sendFrontend f pkt k) = some (s₁, ops, start)) :
    ExecOrigin cfg s s₁ t ops start := by
  obtain ⟨hk, f, rfl, hans⟩ := hop
  simp only [exec] at hex
  split at hex
  · cases hex
  · next s₂ ok hsend =>
      simp only [Option.some.injEq, Prod.mk.injEq] at hex
      obtain ⟨rfl, rfl, rfl⟩ := hex
      have hs := sendFrontend_harmless hsend
      refine .of_harmless h hs fun o ho => ?_
      cases k with
      | done => cases ok <;> cases ho
      | dialRsp b resp =>
          obtain ⟨rfl, herr, htype, hpay, hlog⟩ := hk
          cases ok with
          | true => cases ho
          | false =>
              simp only [AfterFrontend.next, List.mem_singleton] at ho
              subst ho
              exact ⟨rfl, rfl, (reported_of_payload htype hpay herr hlog).mono hs.log⟩

theorem sendBackend_origin (h : SharedOrigin cfg s) {b : Option BackendId} {pkt : Packet}
    {k : AfterBackend} (hop : (Op.sendBackend b pkt k).Origin cfg s.log t)
    (hex : exec cfg s t c (.sendBackend b pkt k) = some (s₁, ops, start)) :
    ExecOrigin cfg s s₁ t ops start := by
  obtain ⟨b, rfl, hk⟩ := hop
  simp only [exec] at hex
  split at hex
  · cases hex
  · simp only [Option.some.injEq, Prod.mk.injEq] at hex
    obtain ⟨rfl, rfl, rfl⟩ := hex
    have hs := (Harmless.refl s).record (e := .toBackend t b pkt c.ok) (by simp)
    exact .of_harmless h hs (AfterBackend.next_origin c.ok (hk.mono hs.log))

theorem selectBackend_origin (h : SharedOrigin cfg s) {f : Frontend} {req : DialRequest}
    {pkt : Packet} (hop : (Op.selectBackend f req pkt).Origin cfg s.log t)
    (hex : exec cfg s t c (.selectBackend f req pkt) = some (s₁, ops, start)) :
    ExecOrigin cfg s s₁ t ops start := by
  obtain ⟨ht, hf, hlog, hreq⟩ := hop
  have htid : t = .proxy f.streamUID := by simp only [ht, Frontend.tid, hf]
  simp only [exec] at hex
  split at hex
  · simp only [Option.some.injEq, Prod.mk.injEq] at hex
    obtain ⟨rfl, rfl, rfl⟩ := hex
    refine .of_harmless h ((Harmless.refl s).setStream rfl) fun o ho => ?_
    simp only [List.mem_cons, List.not_mem_nil, or_false] at ho
    rcases ho with rfl | rfl
    · refine ⟨trivial, f, rfl, fun x hx => ?_⟩
      rw [answersDial_failure] at hx
      injection hx with hx
      exact Or.inl ⟨pkt, hlog, hx ▸ hreq⟩
    · exact htid
  · next b hb =>
      split at hex
      · simp only [Option.some.injEq, Prod.mk.injEq] at hex
        obtain ⟨rfl, rfl, rfl⟩ := hex
        have hset := h.harmless ((Harmless.refl s).setStream (u := f.streamUID)
          (x := { s.streams f.streamUID with backend := some b }) rfl)
        refine ⟨hset.dialing hf b req.random, fun _ hx => List.mem_cons_of_mem _ hx,
          fun o ho => ?_, trivial⟩
        simp only [List.mem_cons, List.not_mem_nil, or_false] at ho
        rcases ho with rfl | rfl
        · refine ⟨rfl, ⟨f, b, rfl, rfl, List.mem_cons_self⟩, fun f' hf' => ?_⟩
          injection hf' with hf'
          exact hf' ▸ ht
        · exact ⟨b, rfl, ht, hf, List.mem_cons_self, hreq⟩
      · cases hex

theorem startPendingDialTimeout_origin (h : SharedOrigin cfg s) {r : DialID} {b : BackendId}
    {f : Frontend} (hop : (Op.startPendingDialTimeout r b f).Origin cfg s.log t)
    (hex : exec cfg s t c (.startPendingDialTimeout r b f) = some (s₁, ops, start)) :
    ExecOrigin cfg s s₁ t ops start := by
  simp only [exec] at hex
  split at hex
  · simp only [Option.some.injEq, Prod.mk.injEq] at hex
    obtain ⟨rfl, rfl, rfl⟩ := hex
    refine ⟨h, fun _ hx => hx, by simp, fun o ho => ?_⟩
    rw [List.mem_singleton] at ho
    subst ho
    exact hop.2
  · simp only [Option.some.injEq, Prod.mk.injEq] at hex
    obtain ⟨rfl, rfl, rfl⟩ := hex
    exact .of_harmless h (.refl _) (by simp)

theorem waitTimer_origin (h : SharedOrigin cfg s) {r : DialID} {b : BackendId} {f : Frontend}
    (hop : (Op.waitTimer r b f).Origin cfg s.log t)
    (hex : exec cfg s t c (.waitTimer r b f) = some (s₁, ops, start)) :
    ExecOrigin cfg s s₁ t ops start := by
  simp only [exec] at hex
  split at hex
  · simp only [Option.some.injEq, Prod.mk.injEq] at hex
    obtain ⟨rfl, rfl, rfl⟩ := hex
    refine .of_harmless h (.refl _) fun o ho => ?_
    rw [List.mem_singleton] at ho
    subst ho
    exact ⟨hop.1, b, hop.2⟩
  · split at hex
    · simp only [Option.some.injEq, Prod.mk.injEq] at hex
      obtain ⟨rfl, rfl, rfl⟩ := hex
      exact .of_harmless h (.refl _) (by simp)
    · cases hex

theorem awaitDial_origin (h : SharedOrigin cfg s) {r : DialID}
    (hop : (Op.awaitDial r).Origin cfg s.log t)
    (hex : exec cfg s t c (.awaitDial r) = some (s₁, ops, start)) :
    ExecOrigin cfg s s₁ t ops start := by
  obtain ⟨rfl, hconn⟩ := hop
  obtain ⟨f, hf, hd⟩ := h.conn r hconn
  simp only [exec] at hex
  split at hex
  · simp only [Option.some.injEq, Prod.mk.injEq] at hex
    obtain ⟨rfl, rfl, rfl⟩ := hex
    have hframe : ((s.conns r).take c.case).backend = (s.conns r).backend ∧
        ((s.conns r).take c.case).watched = (s.conns r).watched ∧
        ((s.conns r).take c.case).result = (s.conns r).result := by
      cases c.case <;> exact ⟨rfl, rfl, rfl⟩
    exact .of_harmless h
      ((Harmless.refl s).setConn hframe.1 (.inl hframe.2.1) (.inl hframe.2.2))
      (DialCase.next_origin hf hd c.case)
  · cases hex

theorem closeOnce_origin (h : SharedOrigin cfg s) {r : DialID}
    (hop : (Op.closeOnce r).Origin cfg s.log t)
    (hex : exec cfg s t c (.closeOnce r) = some (s₁, ops, start)) :
    ExecOrigin cfg s s₁ t ops start := by
  simp only [exec] at hex
  split at hex
  · simp only [Option.some.injEq, Prod.mk.injEq] at hex
    obtain ⟨rfl, rfl, rfl⟩ := hex
    refine .of_harmless h ((Harmless.refl s).setConn rfl (.inl rfl) (.inl rfl)) fun o ho => ?_
    simp only [List.mem_cons, List.not_mem_nil, or_false] at ho
    rcases ho with rfl | rfl <;> exact hop
  · split at hex
    · simp only [Option.some.injEq, Prod.mk.injEq] at hex
      obtain ⟨rfl, rfl, rfl⟩ := hex
      exact .of_harmless h (.refl _) (by simp)
    · cases hex

theorem closeMark_origin (h : SharedOrigin cfg s) {r : DialID}
    (hop : (Op.closeMark r).Origin cfg s.log t)
    (hex : exec cfg s t c (.closeMark r) = some (s₁, ops, start)) :
    ExecOrigin cfg s s₁ t ops start := by
  obtain ⟨ht, hconn⟩ := hop
  obtain ⟨f, hf, hd⟩ := h.conn r hconn
  simp only [exec, Option.some.injEq, Prod.mk.injEq] at hex
  obtain ⟨rfl, rfl, rfl⟩ := hex
  refine .of_harmless h ((Harmless.refl s).setConn rfl (.inl rfl) (.inl rfl)) fun o ho => ?_
  split at ho <;> rw [List.mem_singleton] at ho <;> subst ho
  · exact ⟨ht, hconn⟩
  · exact ⟨ht, rfl, f, hf, hd⟩

theorem exec_origin (h : SharedOrigin cfg s) {op : Op} (hop : op.Origin cfg s.log t)
    (hex : exec cfg s t c op = some (s₁, ops, start)) : ExecOrigin cfg s s₁ t ops start := by
  cases op with
  | pendingAdd r p =>
      simp only [exec, Option.some.injEq, Prod.mk.injEq] at hex
      obtain ⟨rfl, rfl, rfl⟩ := hex
      have hadd := h.pendingAdd hop.1 hop.2.1
      exact ⟨hadd.harmless ((Harmless.refl _).record (by simp)),
        fun _ hx => List.mem_cons_of_mem _ hx, by simp, trivial⟩
  | pendingRemove r k => exact pendingRemove_origin h hop hex
  | pendingRemoveForBackend b => exact pendingRemoveForBackend_origin h hex
  | pendingRemoveForStream u => exact pendingRemoveForStream_origin h hop hex
  | addEstablished b cid p => exact addEstablished_origin h hop hex
  | closeWithBackend f b => exact closeWithBackend_origin h hop hex
  | removeEstablished a cid k => exact removeEstablished_origin h hop hex
  | getFrontend b cid pkt => exact getFrontend_origin h hop hex
  | removeEstablishedForBackendConn b => exact removeEstablishedForBackendConn_origin h hex
  | removeEstablishedForStream u => exact removeEstablishedForStream_origin h hop hex
  | sendFrontend f pkt k => exact sendFrontend_origin h hop hex
  | sendBackend b pkt k => exact sendBackend_origin h hop hex
  | queueSend b pkt =>
      simp only [exec, Option.some.injEq, Prod.mk.injEq] at hex
      obtain ⟨rfl, rfl, rfl⟩ := hex
      exact .of_harmless h ((Harmless.refl s).record (by simp)) (by simp)
  | observeClosed n =>
      simp only [exec, Option.some.injEq, Prod.mk.injEq] at hex
      obtain ⟨rfl, rfl, rfl⟩ := hex
      exact .of_harmless h ((Harmless.refl s).record (by simp)) (by simp)
  | exitDispatcher b =>
      simp only [exec, Option.some.injEq, Prod.mk.injEq] at hex
      obtain ⟨rfl, rfl, rfl⟩ := hex
      exact .of_harmless h ((Harmless.refl s).setBackend _ _) (by simp)
  | selectBackend f req pkt => exact selectBackend_origin h hop hex
  | startPendingDialTimeout r b f => exact startPendingDialTimeout_origin h hop hex
  | waitTimer r b f => exact waitTimer_origin h hop hex
  | returnLoop u =>
      simp only [exec, Option.some.injEq, Prod.mk.injEq] at hex
      obtain ⟨rfl, rfl, rfl⟩ := hex
      exact .of_harmless h ((Harmless.refl s).setStream rfl) (by simp)
  | handlerReturn u =>
      simp only [exec, Option.some.injEq, Prod.mk.injEq] at hex
      obtain ⟨rfl, rfl, rfl⟩ := hex
      exact .of_harmless h ((Harmless.refl s).setStream rfl) (by simp)
  | awaitDial r => exact awaitDial_origin h hop hex
  | closeOnce r => exact closeOnce_origin h hop hex
  | closeMark r => exact closeMark_origin h hop hex
  | closeFinish r =>
      simp only [exec, Option.some.injEq, Prod.mk.injEq] at hex
      obtain ⟨rfl, rfl, rfl⟩ := hex
      exact .of_harmless h ((Harmless.refl s).setConn rfl (.inl rfl) (.inl rfl)) (by simp)
  | dialReturn r ok =>
      simp only [exec, Option.some.injEq, Prod.mk.injEq] at hex
      obtain ⟨rfl, rfl, rfl⟩ := hex
      exact .of_harmless h ((Harmless.refl s).setConn rfl (.inl rfl) (.inr hop.2)) (by simp)

end Exec

/-! ## What arrives -/

section Arrive

variable {cfg : ServerConfig} {s s₁ : ServerState} {start : Option (Tid × List Op)}

theorem serveRecvBackend_origin {b : BackendId} {pkt : Packet} {log : List Event}
    {ops : List Op} (hlog : .fromBackend b pkt ∈ log)
    (h : serveRecvBackend cfg b pkt = some ops) :
    ∀ o ∈ ops, o.Origin cfg log (.dispatcher b) := by
  simp only [serveRecvBackend] at h
  split at h
  · next htype =>
      obtain ⟨resp, hresp, rfl⟩ := Option.map_eq_some_iff.mp h
      rw [Packet.getDialResponse_iff] at hresp
      intro o ho
      rw [List.mem_singleton] at ho
      subst ho
      exact ⟨rfl, rfl, htype, hresp, hlog⟩
  · next htype =>
      obtain ⟨resp, hresp, rfl⟩ := Option.map_eq_some_iff.mp h
      rw [Packet.getCloseDial_iff] at hresp
      intro o ho
      rw [List.mem_singleton] at ho
      subst ho
      exact ⟨htype, hresp⟩
  · next htype =>
      obtain ⟨resp, hresp, rfl⟩ := Option.map_eq_some_iff.mp h
      rw [Packet.getData_iff] at hresp
      intro o ho
      split at ho
      · cases ho
      · rw [List.mem_singleton] at ho
        subst ho
        exact ⟨rfl, hlog, htype, by simp [Packet.belongsTo, htype, hresp]⟩
  · next htype =>
      obtain ⟨resp, hresp, rfl⟩ := Option.map_eq_some_iff.mp h
      rw [Packet.getCloseResponse_iff] at hresp
      intro o ho
      rw [List.mem_singleton] at ho
      subst ho
      exact ⟨b, rfl, rfl, hlog, htype, by simp [Packet.belongsTo, htype, hresp]⟩
  · injection h with h
    subst h
    simp
  · injection h with h
    subst h
    simp

theorem serveRecvFrontend_origin {u : StreamUID} {st st' : StreamState} {pkt : Packet}
    {log : List Event} {ops : List Op} (hlog : .fromFrontend (proxyFrontend u) pkt ∈ log)
    (h : serveRecvFrontend (proxyFrontend u) st pkt = some (st', ops)) :
    st'.opened = st.opened ∧ ∀ o ∈ ops, o.Origin cfg log (.proxy u) := by
  have hclose : ∀ c reason,
      (sendFrontendClose (proxyFrontend u) c reason).Origin cfg log (.proxy u) :=
    fun c reason => ⟨trivial, _, rfl, fun x hx => nomatch hx⟩
  simp only [serveRecvFrontend] at h
  split at h
  · next htype =>
      obtain ⟨req, hreq, heq⟩ := Option.map_eq_some_iff.mp h
      rw [Packet.getDialRequest_iff] at hreq
      injection heq with h1 h2
      subst h1 h2
      refine ⟨rfl, fun o ho => ?_⟩
      rw [List.mem_singleton] at ho
      subst ho
      exact ⟨rfl, rfl, hlog, by simp [Packet.requestsDial, htype, hreq]⟩
  · next htype =>
      obtain ⟨req, hreq, heq⟩ := Option.map_eq_some_iff.mp h
      split at heq
      · injection heq with h1 h2
        subst h1 h2
        refine ⟨rfl, fun o ho => ?_⟩
        rw [List.mem_singleton] at ho
        subst ho
        exact hclose _ _
      · injection heq with h1 h2
        subst h1 h2
        refine ⟨rfl, fun o ho => ?_⟩
        rw [List.mem_singleton] at ho
        subst ho
        exact ⟨_, rfl, rfl, rfl, by simp [Packet.requestsDial, htype]⟩
  · next htype =>
      obtain ⟨req, hreq, heq⟩ := Option.map_eq_some_iff.mp h
      rw [Packet.getCloseDial_iff] at hreq
      injection heq with h1 h2
      subst h1 h2
      refine ⟨rfl, fun o ho => ?_⟩
      rw [List.mem_singleton] at ho
      subst ho
      exact ⟨proxyFrontend u, rfl, pkt, hlog, htype, by simp [Packet.answersDial, htype, hreq]⟩
  · next htype =>
      have hdata : pkt.requestsDial = none := by simp [Packet.requestsDial, htype]
      obtain ⟨req, -, heq⟩ := Option.map_eq_some_iff.mp h
      split at heq
      · injection heq with h1 h2
        subst h1 h2
        refine ⟨rfl, fun o ho => ?_⟩
        simp only [List.mem_cons, List.not_mem_nil, or_false] at ho
        rcases ho with rfl | rfl
        · exact hclose _ _
        · rfl
      · next b _ =>
          split at heq
          · injection heq with h1 h2
            subst h1 h2
            exact ⟨rfl, by simp⟩
          · split at heq
            · injection heq with h1 h2
              subst h1 h2
              refine ⟨rfl, fun o ho => ?_⟩
              rw [List.mem_singleton] at ho
              subst ho
              exact ⟨b, rfl, hdata⟩
            · split at heq
              · injection heq with h1 h2
                subst h1 h2
                refine ⟨rfl, fun o ho => ?_⟩
                simp only [List.mem_cons, List.not_mem_nil, or_false] at ho
                rcases ho with rfl | rfl | rfl | rfl | rfl
                · exact ⟨b, rfl, rfl⟩
                · exact ⟨b, rfl, rfl⟩
                · exact hclose _ _
                · exact hclose _ _
                · rfl
              · injection heq with h1 h2
                subst h1 h2
                refine ⟨rfl, fun o ho => ?_⟩
                rw [List.mem_singleton] at ho
                subst ho
                exact ⟨b, rfl, hdata⟩
  · injection h with h
    injection h with h1 h2
    subst h1 h2
    exact ⟨rfl, by simp⟩

theorem StreamState.recv_opened {st st' : StreamState} {pkt : Packet}
    (h : st.recv pkt = some st') : st'.opened = st.opened := by
  simp only [StreamState.recv] at h
  repeat' split at h
  all_goals cases h
  all_goals rfl

theorem SharedOrigin.openStream (h : SharedOrigin cfg s) {u : StreamUID} {x : StreamState}
    (hu : u ≠ "") : SharedOrigin cfg (s.setStream u x) :=
  { h with
    stream := fun v hv => by
      by_cases hvu : v = u
      · rw [hvu]
        exact hu
      · simp only [ServerState.setStream, Function.update_of_ne hvu] at hv
        exact h.stream v hv }

theorem SharedOrigin.dialConn (h : SharedOrigin cfg s) {f : Frontend} {r : DialID}
    (hf : f.stream = .serverConn r) (b : BackendId) :
    SharedOrigin cfg ((s.setConn r { backend := b }).record (.dialing f b r)) := by
  have hsub : s.log ⊆ ((s.setConn r { backend := b }).record (.dialing f b r)).log :=
    fun _ hx => List.mem_cons_of_mem _ hx
  have hold : ∀ {f' b' r'},
      .dialing f' b' r' ∈ ((s.setConn r { backend := b }).record (.dialing f b r)).log →
      .dialing f' b' r' ∈ s.log ∨ (f' = f ∧ b' = b ∧ r' = r) := by
    intro f' b' r' hd
    rcases List.mem_cons.mp hd with heq | hd
    · injection heq with h1 h2 h3
      exact Or.inr ⟨h1, h2, h3⟩
    · exact Or.inl hd
  have hself : ConnDialed ((s.setConn r { backend := b }).record (.dialing f b r)).log r :=
    ⟨f, b, hf, List.mem_cons_self⟩
  refine ⟨?_, ?_, ?_, ?_, ?_, h.stream, ?_⟩
  · exact fun r' p hp => ⟨(h.pending r' p hp).1, (h.pending r' p hp).2.mono hsub⟩
  · intro a c p hp
    obtain ⟨ha, hc, ho, b', hb, hr⟩ := h.established a c p hp
    exact ⟨ha, hc, ho.mono hsub, b', hb, hr.mono hsub⟩
  · rintro r' ⟨f', b', hf', hd⟩
    by_cases hr : r' = r
    · subst hr
      refine ⟨f, hf, ?_⟩
      simp only [ServerState.record, ServerState.setConn, Function.update_self]
      exact List.mem_cons_self
    · rcases hold hd with hd | ⟨-, -, hr'⟩
      · obtain ⟨f'', hf'', hd''⟩ := h.conn r' ⟨f', b', hf', hd⟩
        refine ⟨f'', hf'', ?_⟩
        simp only [ServerState.record, ServerState.setConn, Function.update_of_ne hr]
        exact List.mem_cons_of_mem _ hd''
      · exact absurd hr' hr
  · intro r' b' hw
    by_cases hr : r' = r
    · exact hr ▸ hself
    · simp only [ServerState.record, ServerState.setConn, Function.update_of_ne hr] at hw
      exact (h.watched r' b' hw).mono hsub
  · intro r' ok hw
    by_cases hr : r' = r
    · exact hr ▸ hself
    · simp only [ServerState.record, ServerState.setConn, Function.update_of_ne hr] at hw
      exact (h.result r' ok hw).mono hsub
  · intro f' b' r' hd r'' hf'
    rcases hold hd with hd | ⟨rfl, -, rfl⟩
    · exact h.ownConn f' b' r' hd r'' hf'
    · rw [hf] at hf'
      injection hf' with hf'
      exact hf'.symm

/-- What an arrival promises about origins. -/
def ArriveOrigin (cfg : ServerConfig) (s s₁ : ServerState) (start : Option (Tid × List Op)) :
    Prop :=
  SharedOrigin cfg s₁ ∧ s.log ⊆ s₁.log ∧ System.StartOk (fun t o => o.Origin cfg s₁.log t) start

theorem deliver_origin (h : SharedOrigin cfg s) {b : BackendId} {pkt : Packet}
    (harr : arrive cfg s (.deliver b pkt) = some (s₁, start)) : ArriveOrigin cfg s s₁ start := by
  simp only [arrive] at harr
  split at harr
  · have hs := (Harmless.refl s).record (e := .fromBackend b pkt) (by simp)
    split at harr
    · simp only [Option.some.injEq, Prod.mk.injEq] at harr
      obtain ⟨rfl, rfl⟩ := harr
      exact ⟨h.harmless (hs.crash _), hs.log, fun o ho => nomatch ho⟩
    · next ops hops =>
        simp only [Option.some.injEq, Prod.mk.injEq] at harr
        obtain ⟨rfl, rfl⟩ := harr
        exact ⟨h.harmless hs, hs.log, serveRecvBackend_origin List.mem_cons_self hops⟩
  · cases harr

theorem receive_origin (h : SharedOrigin cfg s) {u : StreamUID} {pkt : Packet}
    (harr : arrive cfg s (.receive u pkt) = some (s₁, start)) : ArriveOrigin cfg s s₁ start := by
  simp only [arrive] at harr
  split at harr
  · next hu =>
      simp only [Bool.and_eq_true] at hu
      have hs := (Harmless.refl s).record (e := .fromFrontend (proxyFrontend u) pkt) (by simp)
      split at harr
      · cases harr
      · next st hst =>
          split at harr
          · simp only [Option.some.injEq, Prod.mk.injEq] at harr
            obtain ⟨rfl, rfl⟩ := harr
            exact ⟨h.harmless (hs.crash _), hs.log, fun o ho => nomatch ho⟩
          · next st' ops hops =>
              simp only [Option.some.injEq, Prod.mk.injEq] at harr
              obtain ⟨rfl, rfl⟩ := harr
              obtain ⟨hopen, horigin⟩ := @serveRecvFrontend_origin cfg u st st' pkt
                (.fromFrontend (proxyFrontend u) pkt :: s.log) ops List.mem_cons_self hops
              have hs' := hs.setStream (hopen.trans (StreamState.recv_opened hst))
              exact ⟨h.harmless hs', hs'.log, horigin⟩
  · cases harr

theorem shutdown_origin (h : SharedOrigin cfg s) {u : StreamUID}
    (harr : arrive cfg s (.shutdown u) = some (s₁, start)) : ArriveOrigin cfg s s₁ start := by
  simp only [arrive] at harr
  split at harr
  · next hu =>
      simp only [Bool.and_eq_true] at hu
      simp only [Option.some.injEq, Prod.mk.injEq] at harr
      obtain ⟨rfl, rfl⟩ := harr
      have hs := ((Harmless.refl s).setStream (u := u)
        (x := { s.streams u with loop := .cleaning }) rfl).record
          (e := .frontendGone u) (by simp)
      refine ⟨h.harmless hs, hs.log, fun o ho => ?_⟩
      have hne := h.stream u hu.1
      simp only [List.mem_cons, List.not_mem_nil, or_false] at ho
      rcases ho with rfl | rfl | rfl
      · exact ⟨rfl, hne⟩
      · exact ⟨rfl, hne⟩
      · rfl
  · cases harr

theorem dial_origin (h : SharedOrigin cfg s) {u : StreamUID} {r : DialID} {b : BackendId}
    {network address : String}
    (harr : arrive cfg s (.dial u r b network address) = some (s₁, start)) :
    ArriveOrigin cfg s s₁ start := by
  simp only [arrive] at harr
  split at harr
  · next hu =>
      simp only [Bool.and_eq_true, ServerState.freshStream, decide_eq_true_eq] at hu
      simp only [Option.some.injEq, Prod.mk.injEq] at harr
      obtain ⟨rfl, rfl⟩ := harr
      refine ⟨(h.openStream hu.1.1).dialConn rfl b, fun _ hx => List.mem_cons_of_mem _ hx,
        fun o ho => ?_⟩
      simp only [List.mem_cons, List.not_mem_nil, or_false] at ho
      rcases ho with rfl | rfl
      · refine ⟨rfl, ⟨_, b, rfl, rfl, List.mem_cons_self⟩, fun f' hf' => ?_⟩
        injection hf' with hf'
        rw [← hf']
        rfl
      · exact ⟨b, rfl, rfl, rfl, ⟨u, .serverConn r⟩, rfl, List.mem_cons_self⟩
  · cases harr

theorem arrive_origin (h : SharedOrigin cfg s) {a : ServerAction}
    (harr : arrive cfg s a = some (s₁, start)) : ArriveOrigin cfg s s₁ start := by
  have quiet : ∀ {s₁ : ServerState}, Harmless s s₁ → ArriveOrigin cfg s s₁ none :=
    fun hs => ⟨h.harmless hs, hs.log, trivial⟩
  cases a with
  | connect b =>
      simp only [arrive] at harr
      split at harr
      · cases harr
      · simp only [Option.some.injEq, Prod.mk.injEq] at harr
        obtain ⟨rfl, rfl⟩ := harr
        exact quiet ((Harmless.refl s).setBackend _ _)
  | deliver b pkt => exact deliver_origin h harr
  | recvEnd b eof =>
      simp only [arrive] at harr
      split at harr
      · simp only [Option.some.injEq, Prod.mk.injEq] at harr
        obtain ⟨rfl, rfl⟩ := harr
        exact quiet ((Harmless.refl s).setBackend _ _)
      · cases harr
  | drained b =>
      simp only [arrive] at harr
      split at harr
      · simp only [Option.some.injEq, Prod.mk.injEq] at harr
        obtain ⟨rfl, rfl⟩ := harr
        have hs := (Harmless.refl s).setBackend b { s.backends b with draining := true }
        refine ⟨h.harmless hs, hs.log, fun o ho => ?_⟩
        simp only [List.mem_cons, List.not_mem_nil, or_false] at ho
        rcases ho with rfl | rfl | rfl <;> rfl
      · cases harr
  | disconnect b =>
      simp only [arrive] at harr
      split at harr
      · simp only [Option.some.injEq, Prod.mk.injEq] at harr
        obtain ⟨rfl, rfl⟩ := harr
        exact quiet ((Harmless.refl s).setBackend _ _)
      · cases harr
  | ctxDone b =>
      simp only [arrive] at harr
      split at harr
      · simp only [Option.some.injEq, Prod.mk.injEq] at harr
        obtain ⟨rfl, rfl⟩ := harr
        exact quiet ((Harmless.refl s).setBackend _ _)
      · cases harr
  | openStream u http =>
      simp only [arrive] at harr
      split at harr
      · next hu =>
          simp only [Option.some.injEq, Prod.mk.injEq] at harr
          obtain ⟨rfl, rfl⟩ := harr
          simp only [ServerState.freshStream, Bool.and_eq_true, decide_eq_true_eq] at hu
          exact ⟨h.openStream hu.1, fun _ hx => hx, trivial⟩
      · cases harr
  | receive u pkt => exact receive_origin h harr
  | shutdown u => exact shutdown_origin h harr
  | dial u r b network address => exact dial_origin h harr
  | userClose r =>
      simp only [arrive] at harr
      split at harr
      · next hres =>
          simp only [Option.some.injEq, Prod.mk.injEq] at harr
          obtain ⟨rfl, rfl⟩ := harr
          refine ⟨h, fun _ hx => hx, fun o ho => ?_⟩
          rw [List.mem_singleton] at ho
          subst ho
          exact ⟨Or.inr (Or.inl rfl), h.result r true hres⟩
      · cases harr
  | watchClose r =>
      simp only [arrive] at harr
      split at harr
      · cases harr
      · next b hw =>
          split at harr
          · simp only [Option.some.injEq, Prod.mk.injEq] at harr
            obtain ⟨rfl, rfl⟩ := harr
            refine ⟨h, fun _ hx => hx, fun o ho => ?_⟩
            rw [List.mem_singleton] at ho
            subst ho
            exact ⟨Or.inr (Or.inr rfl), h.watched r b hw⟩
          · cases harr

end Arrive

/-! ## Every run -/

/-- In every state a server reaches, the history explains the tables and every
operation that is still to be performed. -/
theorem server_origin {cfg : ServerConfig} {okExec : ServerState → Tid → Choice → Op → Prop}
    {okArrive : ServerState → ServerAction → Prop} {s : System.State ServerState Tid Op}
    (h : Reach (server cfg).step (System.Allowed okExec okArrive) newServer s) :
    SharedOrigin cfg s.shared ∧
      Pool.All (fun t o => o.Origin cfg s.shared.log t) s.threads := by
  refine System.invariant (SharedOrigin cfg) (fun s t o => o.Origin cfg s.log t)
    ?_ ?_ ?_ ?_ h
  · refine ⟨?_, ?_, ?_, ?_, ?_, ?_, ?_⟩
    · exact fun r p hp => nomatch hp
    · exact fun a c p hp => nomatch hp
    · rintro r ⟨f, b, -, hd⟩
      cases hd
    · exact fun r b hw => nomatch hw
    · exact fun r ok hw => nomatch hw
    · exact fun u hu => nomatch hu
    · exact fun f b r hd => nomatch hd
  · exact fun t o ho => nomatch ho
  · intro s a s₁ start _ hG _ harr
    obtain ⟨h1, h2, h3⟩ := arrive_origin hG harr
    exact ⟨h1, fun t o ho => Op.Origin.mono h2 ho, h3⟩
  · intro s t c o rest s₁ ops start _ hG _ hop _ hex
    obtain ⟨h1, h2, h3, h4⟩ := exec_origin hG hop hex
    exact ⟨h1, fun t o ho => Op.Origin.mono h2 ho, h3, h4⟩

end Konnectivity
