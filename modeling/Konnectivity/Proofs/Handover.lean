import Konnectivity.Proofs.TunnelInv

/-!
# From the `DIAL_RSP` to the registered connection

`serve` hands a dial's result to `dialContext` and reads on; `dialContext`
registers the connection in a step of its own. A packet of the connection
that `serve` looks up in between finds nothing: a `DATA` packet is answered
with a `CLOSE_REQ` and lost. This is the only way to lose one. In the runs in
which every lookup comes after the registration, what `serve` receives for a
connection is what the connection is given, packet by packet.
-/

namespace Konnectivity.Client

open Lib

/-! ## What arrives and what is delivered -/

/-- The event is the `DIAL_RSP` that reports the connection. -/
def Event.reports (r : DialID) (c : ConnectID) : Event → Bool
  | .received pkt => pkt.reportsConn == some (r, c)
  | _ => false

theorem reported_iff {log : List Event} {r : DialID} {c : ConnectID} :
    log.any (Event.reports r c) = true ↔ Reported log r c := by
  rw [List.any_eq_true]
  constructor
  · rintro ⟨e, he, hr⟩
    cases e with
    | received pkt => exact ⟨pkt, he, by simpa [Event.reports] using hr⟩
    | _ => cases hr
  · rintro ⟨pkt, hp, hr⟩
    exact ⟨_, hp, by simp [Event.reports, hr]⟩

/-- The packets of the connection received after its `DIAL_RSP`, newest first. -/
def arrivals (r : DialID) (c : ConnectID) : List Event → List Packet
  | [] => []
  | .received pkt :: log =>
      if pkt.belongsTo = some c ∧ log.any (Event.reports r c) = true then
        pkt :: arrivals r c log
      else arrivals r c log
  | _ :: log => arrivals r c log

/-- The event delivers a packet of the connection. -/
def Event.delivers (r : DialID) (c : ConnectID) : Event → Option Packet
  | .delivered r' pkt => if r' = r ∧ pkt.belongsTo = some c then some pkt else none
  | _ => none

/-- The packets delivered to the connection, newest first. -/
def deliveries (r : DialID) (c : ConnectID) (log : List Event) : List Packet :=
  log.filterMap (Event.delivers r c)

/-- After the `DIAL_RSP`, `serve` has asked for the connection to be closed. -/
def refused (r : DialID) (c : ConnectID) : List Event → Bool
  | [] => false
  | .sent .serve pkt _ :: log =>
      (pkt == .newCloseRequest c && log.any (Event.reports r c)) || refused r c log
  | _ :: log => refused r c log

/-- The packet of the connection `serve` is working on. -/
def Op.holds (c : ConnectID) : Op → Option Packet
  | .dispatch pkt => if pkt.belongsTo = some c then some pkt else none
  | .connsGet _ k => if k.pkt.belongsTo = some c then some k.pkt else none
  | .sendReadCh _ pkt _ => if pkt.belongsTo = some c then some pkt else none
  | .sendCloseCh _ pkt _ => if pkt.belongsTo = some c then some pkt else none
  | _ => none

def held (c : ConnectID) (ops : List Op) : List Packet := ops.filterMap (Op.holds c)

@[simp]
theorem held_nil (c : ConnectID) : held c [] = [] := rfl

@[simp]
theorem held_cons (c : ConnectID) (o : Op) (ops : List Op) :
    held c (o :: ops) = (o.holds c).toList ++ held c ops := by
  unfold held
  cases h : o.holds c <;> simp [h]

/-- Every packet of the connection that was received after its `DIAL_RSP` has
been delivered to it, in order, but for the one `serve` may be working on; and
`serve` has not asked for the connection to be closed. -/
def ReceivesAll (s : System.State TunnelState Tid Op) (r : DialID) (c : ConnectID) : Prop :=
  (s.shared.log.any (Event.reports r c) = true →
    arrivals r c s.shared.log = held c (s.threads .serve) ++ deliveries r c s.shared.log) ∧
    refused r c s.shared.log = false

/-! ## The runs in which registration is in time -/

/-- A lookup comes after the registration of the connection it is for, the
tunnel is not being closed when a packet is taken, and no read times out. -/
def Op.inTime (s : TunnelState) (c : Choice) : Op → Bool
  | .dispatch _ => !s.closing
  | .connsGet cid _ => s.log.all fun e =>
      match e with
      | .handed r ⟨none, cid'⟩ => cid' != cid || s.log.contains (.registered cid r)
      | _ => true
  | .sendReadCh _ _ _ => c.case != .timeout
  | _ => true

def InTime (s : TunnelState) (_ : Tid) (c : Choice) (op : Op) : Prop := op.inTime s c = true

/-- The tunnel context is not cancelled, and connection IDs are not zero. -/
def Undisturbed (_ : TunnelState) : TunnelAction → Prop
  | .cancelTunnel => False
  | .receive pkt => ∀ x, pkt.reportsConn = some x → x.2 ≠ 0
  | _ => True

instance InTime.decidable (s : TunnelState) (t : Tid) (c : Choice) (op : Op) :
    Decidable (InTime s t c op) :=
  inferInstanceAs (Decidable (op.inTime s c = true))

instance Undisturbed.decidable (s : TunnelState) (a : TunnelAction) :
    Decidable (Undisturbed s a) :=
  match a with
  | .cancelTunnel => inferInstanceAs (Decidable False)
  | .receive pkt =>
      match h : pkt.reportsConn with
      | none => isTrue fun x hx => by rw [h] at hx; cases hx
      | some x =>
          decidable_of_iff (x.2 ≠ 0)
            ⟨fun hx y hy => by rw [h] at hy; cases hy; exact hx, fun hx => hx x h⟩
  | .recvEnd | .dialContext _ _ _ | .read _ _ | .write _ _ _ | .close _ _ => isTrue trivial

theorem InTime.registered {s : TunnelState} {t : Tid} {c : Choice} {cid : ConnectID}
    {k : AfterGet} (h : InTime s t c (.connsGet cid k)) {r : DialID}
    (hh : .handed r ⟨none, cid⟩ ∈ s.log) : .registered cid r ∈ s.log := by
  have := List.all_eq_true.mp h _ hh
  simpa using this

/-! ## The invariant -/

/-- The operation is on its way to hand the connection over. -/
def Op.carries (r : DialID) (c : ConnectID) : Op → Prop
  | .dispatch pkt => pkt.reportsConn = some (r, c)
  | .pendingGet r' res => r' = r ∧ res = ⟨none, c⟩
  | .offerResult r' res => r' = r ∧ res = ⟨none, c⟩
  | .awaitTaken r' res => r' = r ∧ res = ⟨none, c⟩
  | _ => False

/-- `serve` has left its loop and closes what is left. -/
def Stopping (ops : List Op) : Prop := ops = [.closeAll, .closeDone] ∨ ops = [.closeDone]

structure HandoverInv (s : System.State TunnelState Tid Op) : Prop where
  ctx : s.shared.ctxDone = false
  nonzero : ∀ r c, Reported s.shared.log r c → c ≠ 0
  balance : ∀ r c, Reported s.shared.log r c →
    arrivals r c s.shared.log = held c (core (s.threads .serve)) ++ deliveries r c s.shared.log
  refused : ∀ r c, refused r c s.shared.log = false
  sending : ∀ c k, .send (.newCloseRequest c) k ∈ core (s.threads .serve) →
    ∀ r, ¬ Reported s.shared.log r c
  -- Whoever reported a connection has it handed over, or `serve` stops.
  handed : ∀ r c, Reported s.shared.log r c → .handed r ⟨none, c⟩ ∈ s.shared.log ∨
    (∃ o ∈ core (s.threads .serve), o.carries r c) ∨ Stopping (core (s.threads .serve)) ∨
    s.shared.done = true
  lookup : ∀ c r, .registered c r ∈ s.shared.log → s.shared.conns.lookup c = some r ∨
    Stopping (core (s.threads .serve)) ∨ s.shared.done = true

/-! ## Events that do not matter here -/

/-- Neither received, nor delivered, nor sent by `serve`. -/
def Event.quiet : Event → Bool
  | .received _ | .delivered _ _ | .sent .serve _ _ => false
  | _ => true

theorem Event.By.quiet {t : Tid} {e : Event} (h : e.By t) (ht : t ≠ .serve) :
    e.quiet = true := by
  cases e with
  | sent t' pkt ok =>
      cases t' with
      | serve => exact absurd h.symm ht
      | _ => rfl
  | handed r res => rfl
  | registered c r => rfl
  | dialReturned r ret => rfl
  | _ => exact h.elim

section Quiet

variable {es log : List Event} (hes : ∀ e ∈ es, e.quiet = true)

include hes

theorem reported_quiet {r : DialID} {c : ConnectID} :
    Reported (es ++ log) r c ↔ Reported log r c := by
  constructor
  · rintro ⟨pkt, hp, hr⟩
    rcases List.mem_append.mp hp with hp | hp
    · exact absurd (hes _ hp) (by simp [Event.quiet])
    · exact ⟨pkt, hp, hr⟩
  · exact fun h => h.mono (List.subset_append_right _ _)

theorem history_quiet (r : DialID) (c : ConnectID) :
    arrivals r c (es ++ log) = arrivals r c log ∧
      deliveries r c (es ++ log) = deliveries r c log ∧
      refused r c (es ++ log) = refused r c log := by
  induction es with
  | nil => exact ⟨rfl, rfl, rfl⟩
  | cons e es ih =>
      obtain ⟨h1, h2, h3⟩ := ih fun x hx => hes x (List.mem_cons_of_mem _ hx)
      have he := hes e List.mem_cons_self
      rw [List.cons_append]
      cases e with
      | received pkt => cases he
      | delivered r' pkt => cases he
      | sent t pkt ok =>
          cases t with
          | serve => cases he
          | _ => exact ⟨h1, h2, h3⟩
      | _ => exact ⟨h1, h2, h3⟩

end Quiet

theorem arrivals_unreported {r : DialID} {c : ConnectID} {log : List Event}
    (h : ¬ Reported log r c) : arrivals r c log = [] := by
  induction log with
  | nil => rfl
  | cons e log ih =>
      have hlog : ¬ Reported log r c := fun hr => h (hr.mono (List.subset_cons_self _ _))
      cases e with
      | received pkt =>
          rw [arrivals, if_neg, ih hlog]
          rintro ⟨-, hr⟩
          exact hlog (reported_iff.mp hr)
      | _ => exact ih hlog

/-! ## Steps -/

section Steps

variable {s : System.State TunnelState Tid Op} {s₁ : TunnelState} {t : Tid} {c : Choice} {op : Op}
  {ops rest : List Op} {start : Option (Tid × List Op)} {threads : Tid → List Op}

/-- What is handed over comes from `serve`, and there is one dial. -/
theorem Reported.unique (hT : TunnelInv s) {r r' : DialID} {cid : ConnectID}
    (hreg : .registered cid r ∈ s.shared.log) (hh : .handed r' ⟨none, cid⟩ ∈ s.shared.log) :
    r' = r :=
  DialHistory.dialing_unique hT.history.justified (hT.history.handed hh).1
    (hT.history.handed (hT.history.registered hreg)).1

/-- A step after which `serve` holds the same packet, with what it still owes. -/
theorem HandoverInv.step (h : HandoverInv s) (es : List Event)
    (hlog : s₁.log = es ++ s.shared.log) (hes : ∀ e ∈ es, e.quiet = true)
    (hctx : s₁.ctxDone = s.shared.ctxDone)
    (hheld : ∀ r c, Reported s.shared.log r c →
      held c (core (threads .serve)) = held c (core (s.threads .serve)))
    (hsend : ∀ c k, .send (.newCloseRequest c) k ∈ core (threads .serve) →
      ∀ r, ¬ Reported s.shared.log r c)
    (hstop : Stopping (core (s.threads .serve)) ∨ s.shared.done = true →
      Stopping (core (threads .serve)) ∨ s₁.done = true)
    (hcarry : ∀ r c, ∀ o ∈ core (s.threads .serve), o.carries r c →
      .handed r ⟨none, c⟩ ∈ s₁.log ∨ (∃ o ∈ core (threads .serve), o.carries r c) ∨
        Stopping (core (threads .serve)))
    (hlookup : ∀ c r, .registered c r ∈ s₁.log → s₁.conns.lookup c = some r ∨
      Stopping (core (threads .serve)) ∨ s₁.done = true) :
    HandoverInv ⟨s₁, threads⟩ := by
  have hrep : ∀ {r c}, Reported s₁.log r c ↔ Reported s.shared.log r c := by
    intro r c
    rw [hlog]
    exact reported_quiet hes
  have hquiet := fun r c => @history_quiet es s.shared.log hes r c
  refine ⟨hctx ▸ h.ctx, fun r c hr => h.nonzero r c (hrep.mp hr), fun r c hr => ?_, fun r c => ?_,
    fun c k ho r hr => hsend c k ho r (hrep.mp hr), fun r c hr => ?_, hlookup⟩
  · dsimp only
    rw [hlog, (hquiet r c).1, (hquiet r c).2.1, hheld r c (hrep.mp hr)]
    exact h.balance r c (hrep.mp hr)
  · dsimp only
    rw [hlog, (hquiet r c).2.2]
    exact h.refused r c
  · rcases h.handed r c (hrep.mp hr) with hh | ⟨o, ho, hc⟩ | hd
    · refine Or.inl ?_
      dsimp only
      rw [hlog]
      exact List.mem_append_right _ hh
    · rcases hcarry r c o ho hc with hh | hh | hh
      · exact Or.inl hh
      · exact Or.inr (Or.inl hh)
      · exact Or.inr (Or.inr (Or.inl hh))
    · rcases hstop hd with hd | hd
      · exact Or.inr (Or.inr (Or.inl hd))
      · exact Or.inr (Or.inr (Or.inr hd))

/-- A step that leaves `serve` where it is and registers nothing. -/
theorem HandoverInv.aside (h : HandoverInv s) (es : List Event)
    (hlog : s₁.log = es ++ s.shared.log) (hes : ∀ e ∈ es, e.quiet = true)
    (hreg : ∀ c r, .registered c r ∉ es) (hctx : s₁.ctxDone = s.shared.ctxDone)
    (hdone : s₁.done = s.shared.done) (hconns : s₁.conns = s.shared.conns)
    (hcore : core (threads .serve) = core (s.threads .serve)) : HandoverInv ⟨s₁, threads⟩ := by
  refine h.step es hlog hes hctx (fun r c _ => by rw [hcore]) ?_ ?_ ?_ ?_
  · rw [hcore]
    exact h.sending
  · rw [hcore, hdone]
    exact id
  · intro r c o ho hc
    rw [hcore]
    exact Or.inr (Or.inl ⟨o, ho, hc⟩)
  · intro c r hr
    rw [hconns, hcore, hdone]
    rw [hlog] at hr
    exact h.lookup c r ((List.mem_append.mp hr).resolve_left (hreg c r))

/-- A packet is delivered to its connection. -/
theorem HandoverInv.deliver (h : HandoverInv s) (hT : TunnelInv s) {r : DialID} {pkt : Packet}
    {cid : ConnectID} {tail : List Op} (hreg : .registered cid r ∈ s.shared.log)
    (hb : pkt.belongsTo = some cid) (hlog : s₁.log = .delivered r pkt :: s.shared.log)
    (hctx : s₁.ctxDone = s.shared.ctxDone) (hconns : s₁.conns = s.shared.conns)
    (hcore : core (s.threads .serve) = op :: tail)
    (hold : ∀ c, held c (op :: tail) = if pkt.belongsTo = some c then [pkt] else [])
    (hnew : ∀ c, held c (core (threads .serve)) = [])
    (hrun : ¬ (Stopping (op :: tail) ∨ s.shared.done = true))
    (hcarry : ∀ r c, ∀ o ∈ op :: tail, ¬ o.carries r c)
    (hsend : ∀ c k, .send (.newCloseRequest c) k ∉ core (threads .serve)) :
    HandoverInv ⟨s₁, threads⟩ := by
  have hrep : ∀ {r c}, Reported s₁.log r c ↔ Reported s.shared.log r c := by
    intro r c
    rw [hlog]
    constructor
    · rintro ⟨pkt', hp, hr⟩
      exact ⟨pkt', by simpa using hp, hr⟩
    · exact fun hr => hr.mono (List.subset_cons_self _ _)
  have hhanded : ∀ {r' c}, Reported s.shared.log r' c → .handed r' ⟨none, c⟩ ∈ s.shared.log := by
    intro r' c hr
    rcases h.handed r' c hr with hh | ⟨o, ho, hc⟩ | hd
    · exact hh
    · exact absurd hc (hcarry r' c o (hcore ▸ ho))
    · exact absurd (hcore ▸ hd) hrun
  refine ⟨hctx ▸ h.ctx, fun r c hr => h.nonzero r c (hrep.mp hr), fun r' c hr => ?_, fun r c => ?_,
    fun c k ho => absurd ho (hsend c k), fun r' c hr => ?_, fun c r' hr => ?_⟩
  · have hbal := h.balance r' c (hrep.mp hr)
    rw [hcore, hold] at hbal
    dsimp only
    rw [hlog, hnew, List.nil_append]
    refine hbal.trans ?_
    by_cases hc : pkt.belongsTo = some c
    · have hcc : c = cid := by
        rw [hb] at hc
        exact (Option.some.inj hc).symm
      subst hcc
      have hr' : r' = r := Reported.unique hT hreg (hhanded (hrep.mp hr))
      subst hr'
      simp [deliveries, Event.delivers, hc]
    · simp [deliveries, Event.delivers, hc]
  · dsimp only
    rw [hlog]
    exact h.refused r c
  · refine Or.inl ?_
    dsimp only
    rw [hlog]
    exact List.mem_cons_of_mem _ (hhanded (hrep.mp hr))
  · dsimp only at hr ⊢
    rw [hlog] at hr
    rw [hconns]
    rcases h.lookup c r' (by simpa using hr) with hl | hd
    · exact Or.inl hl
    · exact absurd (hcore ▸ hd) hrun

theorem closeReadCh_ctx (s : TunnelState) (r : DialID) :
    (s.closeReadCh r).ctxDone = s.ctxDone := by
  unfold TunnelState.closeReadCh
  split <;> rfl

theorem closeAll_ctx (rs : List DialID) (s : TunnelState) :
    (rs.foldl TunnelState.closeReadCh s).ctxDone = s.ctxDone := by
  induction rs generalizing s with
  | nil => rfl
  | cons r rs ih => rw [List.foldl_cons, ih, closeReadCh_ctx]

/-- `serve` asks for a connection to be closed that nobody has reported. -/
theorem HandoverInv.answer (h : HandoverInv s) {cid : ConnectID} {ok : Bool}
    (hunrep : ∀ r, ¬ Reported s.shared.log r cid)
    (hlog : s₁.log = .sent .serve (.newCloseRequest cid) ok :: s.shared.log)
    (hctx : s₁.ctxDone = s.shared.ctxDone) (hconns : s₁.conns = s.shared.conns)
    (hold : ∀ c, held c (core (s.threads .serve)) = []) (hnew : core (threads .serve) = [])
    (hrun : ¬ (Stopping (core (s.threads .serve)) ∨ s.shared.done = true))
    (hcarry : ∀ r c, ∀ o ∈ core (s.threads .serve), ¬ o.carries r c) :
    HandoverInv ⟨s₁, threads⟩ := by
  have hrep : ∀ {r c}, Reported s₁.log r c ↔ Reported s.shared.log r c := by
    intro r c
    rw [hlog]
    constructor
    · rintro ⟨pkt', hp, hr⟩
      exact ⟨pkt', by simpa using hp, hr⟩
    · exact fun hr => hr.mono (List.subset_cons_self _ _)
  refine ⟨hctx ▸ h.ctx, fun r c hr => h.nonzero r c (hrep.mp hr), fun r c hr => ?_, fun r c => ?_,
    fun c k ho => ?_, fun r c hr => ?_, fun c r hr => ?_⟩
  · have hbal := h.balance r c (hrep.mp hr)
    rw [hold] at hbal
    dsimp only
    rw [hlog, hnew]
    exact hbal
  · dsimp only
    rw [hlog]
    have hnone : (Packet.newCloseRequest cid == .newCloseRequest c &&
        s.shared.log.any (Event.reports r c)) = false := by
      refine Bool.eq_false_iff.mpr fun hb => ?_
      rw [Bool.and_eq_true, beq_iff_eq] at hb
      have hc : cid = c := by simpa [Packet.newCloseRequest] using hb.1
      exact hunrep r (hc ▸ reported_iff.mp hb.2)
    rw [Client.refused, hnone, Bool.false_or]
    exact h.refused r c
  · dsimp only at ho
    rw [hnew] at ho
    cases ho
  · rcases h.handed r c (hrep.mp hr) with hh | ⟨o, ho, hc⟩ | hd
    · refine Or.inl ?_
      dsimp only
      rw [hlog]
      exact List.mem_cons_of_mem _ hh
    · exact absurd hc (hcarry r c o ho)
    · exact absurd hd hrun
  · dsimp only at hr ⊢
    rw [hlog] at hr
    rw [hconns]
    exact (h.lookup c r (by simpa using hr)).imp_right fun hs => absurd hs hrun

theorem held_of_ne {cid c : ConnectID} {k : AfterGet} (hb : k.pkt.belongsTo = some cid)
    (hc : c ≠ cid) : held c [.connsGet cid k] = [] := by
  simp [Op.holds, hb, Ne.symm hc]

/-- A step of `serve` that goes on serving and leaves the log and the connections alone. -/
theorem HandoverInv.within (h : HandoverInv s)
    (hnot : ¬ (Stopping (core (s.threads .serve)) ∨ s.shared.done = true))
    (hlog : s₁.log = s.shared.log) (hctx : s₁.ctxDone = s.shared.ctxDone)
    (hconns : s₁.conns = s.shared.conns)
    (hheld : ∀ r c, Reported s.shared.log r c →
      held c (core (threads .serve)) = held c (core (s.threads .serve)))
    (hsend : ∀ c k, .send (.newCloseRequest c) k ∈ core (threads .serve) →
      ∀ r, ¬ Reported s.shared.log r c)
    (hcarry : ∀ r c, ∀ o ∈ core (s.threads .serve), o.carries r c →
      .handed r ⟨none, c⟩ ∈ s₁.log ∨ (∃ o' ∈ core (threads .serve), o'.carries r c) ∨
        Stopping (core (threads .serve))) :
    HandoverInv ⟨s₁, threads⟩ := by
  refine h.step [] hlog (by simp) hctx hheld hsend (fun hs => absurd hs hnot) hcarry ?_
  intro c r hr
  rw [hlog] at hr
  rw [hconns]
  exact (h.lookup c r hr).imp_right fun hs => absurd hs hnot

theorem HandoverInv.exec_dispatch (h : HandoverInv s) {pkt : Packet}
    (hcore : core (s.threads .serve) = [.dispatch pkt])
    (hnot : ¬ (Stopping (core (s.threads .serve)) ∨ s.shared.done = true))
    (hok : InTime s.shared .serve c (.dispatch pkt))
    (hex : exec s.shared .serve c (.dispatch pkt) = some (s₁, ops, start))
    (hcore' : core (threads .serve) = core ops ++ []) :
    HandoverInv ⟨s₁, threads⟩ := by
  simp only [Konnectivity.Client.exec] at hex
  split at hex
  · next hclosing => simp [InTime, Op.inTime, hclosing] at hok
  · split at hex
    · next hnone =>
        cases hex
        obtain ⟨hrep, hbel⟩ := serve_none hnone
        refine h.within hnot rfl rfl rfl (fun r c _ => ?_) ?_ (fun r c o ho hc => ?_)
        · rw [hcore, hcore']
          simp [Op.holds, hbel]
        · rw [hcore']
          simp
        · rw [hcore, List.mem_singleton] at ho
          subst ho
          rw [Op.carries, hrep] at hc
          cases hc
    · next ops' hops =>
        cases hex
        refine h.within hnot rfl rfl rfl (fun r c hr => ?_) ?_ (fun r c o ho hc => ?_)
        · rw [hcore, hcore']
          rcases serve_cases hops with ⟨rfl, -, hzero⟩ | ⟨r', res, rfl, hbel, -⟩ |
            ⟨cid, k, rfl, hk, -, hb⟩
          · have : pkt.belongsTo ≠ some c := fun hb => h.nonzero r c hr (hzero c hb)
            simp [Op.holds, this]
          · simp [Op.holds, core, Op.isMetric, hbel]
          · subst hk
            simp [Op.holds, core, Op.isMetric]
        · rw [hcore']
          rcases serve_cases hops with ⟨rfl, -⟩ | ⟨r', res, rfl, -⟩ | ⟨cid, k, rfl, -⟩ <;>
            simp [core, Op.isMetric]
        · rw [hcore, List.mem_singleton] at ho
          subst ho
          rw [Op.carries] at hc
          rw [hcore']
          rcases serve_cases hops with ⟨rfl, hrep, -⟩ | ⟨r', res, rfl, -, -, hrep⟩ |
            ⟨cid, k, rfl, -, hrep, -⟩
          · rw [hrep] at hc
            cases hc
          · obtain ⟨hr, hres⟩ := hrep _ hc
            exact Or.inr (Or.inl ⟨.pendingGet r' res, by simp [core, Op.isMetric], hr.symm, hres⟩)
          · rw [hrep] at hc
            cases hc

theorem HandoverInv.exec_pendingGet (h : HandoverInv s) {r : DialID} {res : DialResult}
    (hcore : core (s.threads .serve) = [.pendingGet r res])
    (hnot : ¬ (Stopping (core (s.threads .serve)) ∨ s.shared.done = true))
    (hex : exec s.shared .serve c (.pendingGet r res) = some (s₁, ops, start))
    (hcore' : core (threads .serve) = core ops ++ []) :
    HandoverInv ⟨s₁, threads⟩ := by
  simp only [Konnectivity.Client.exec] at hex
  split at hex
  · cases hex
    refine h.within hnot rfl rfl rfl (fun r c _ => ?_) ?_ (fun r c o ho hc => ?_)
    · rw [hcore, hcore']
      simp [Op.holds, core_serveExit]
    · rw [hcore']
      simp [core_serveExit]
    · exact Or.inr (Or.inr (by rw [hcore']; exact Or.inl rfl))
  · cases hex
    have hoffer : core ((if res.err.isNone then [Op.updateMetric .ok] else []) ++
        [.offerResult r res]) = [.offerResult r res] := by
      split <;> rfl
    rw [hoffer] at hcore'
    refine h.within hnot rfl rfl rfl (fun r c _ => ?_) ?_ (fun r c o ho hc => ?_)
    · rw [hcore, hcore']
      simp [Op.holds]
    · rw [hcore']
      simp
    · rw [hcore, List.mem_singleton] at ho
      subst ho
      exact Or.inr (Or.inl ⟨.offerResult _ _, by rw [hcore']; simp, hc⟩)

theorem HandoverInv.exec_offerResult (h : HandoverInv s) {r : DialID} {res : DialResult}
    (hcore : core (s.threads .serve) = [.offerResult r res])
    (hnot : ¬ (Stopping (core (s.threads .serve)) ∨ s.shared.done = true))
    (hex : exec s.shared .serve c (.offerResult r res) = some (s₁, ops, start))
    (hcore' : core (threads .serve) = core ops ++ []) :
    HandoverInv ⟨s₁, threads⟩ := by
  simp only [Konnectivity.Client.exec] at hex
  cases hex
  refine h.within hnot rfl rfl rfl (fun r c _ => ?_) ?_ (fun r c o ho hc => ?_)
  · rw [hcore, hcore']
    simp [Op.holds, core, Op.isMetric]
  · rw [hcore']
    simp [core, Op.isMetric]
  · rw [hcore, List.mem_singleton] at ho
    subst ho
    exact Or.inr (Or.inl ⟨.awaitTaken _ _, by rw [hcore']; simp [core, Op.isMetric], hc⟩)

theorem HandoverInv.exec_awaitTaken (h : HandoverInv s) (hT : TunnelInv s) {r : DialID}
    {res : DialResult} (hcore : core (s.threads .serve) = [.awaitTaken r res])
    (hnot : ¬ (Stopping (core (s.threads .serve)) ∨ s.shared.done = true))
    (hex : exec s.shared .serve c (.awaitTaken r res) = some (s₁, ops, start))
    (hcore' : core (threads .serve) = core ops ++ []) :
    HandoverInv ⟨s₁, threads⟩ := by
  -- Either the result was taken, or `serve` stops.
  have hleave : ∀ {x : DialChans} {l : List Op}, core (threads .serve) = core l →
      (l = serveExit ∨ (l = [] ∧ .handed r res ∈ s.shared.log)) →
      HandoverInv ⟨s.shared.setChans r x, threads⟩ := by
    intro x l hl hcase
    refine h.within hnot rfl rfl rfl (fun r c _ => ?_) ?_ (fun r' c o ho hc => ?_)
    · rw [hcore, hl]
      rcases hcase with rfl | ⟨rfl, -⟩ <;> simp [Op.holds, core_serveExit]
    · rw [hl]
      rcases hcase with rfl | ⟨rfl, -⟩ <;> simp [core_serveExit]
    · rw [hcore, List.mem_singleton] at ho
      subst ho
      rcases hcase with rfl | ⟨-, hh⟩
      · exact Or.inr (Or.inr (by rw [hl]; exact Or.inl rfl))
      · obtain ⟨rfl, rfl⟩ := hc
        exact Or.inl hh
  simp only [Konnectivity.Client.exec] at hex
  obtain ⟨⟨s', ops'⟩, haw, heq⟩ := Option.map_eq_some_iff.mp hex
  cases heq
  rw [List.append_nil] at hcore'
  unfold TunnelState.awaitTaken at haw
  repeat' split at haw
  · next htaken herr =>
      cases haw
      exact hleave hcore' (Or.inl rfl)
  · next htaken herr =>
      cases haw
      obtain ⟨res', ho, hh⟩ := hT.history.taken r htaken
      rw [hT.offered, hcore] at ho
      injection ho with ho
      injection ho with _ hres
      exact hleave hcore' (Or.inr ⟨rfl, hres ▸ hh⟩)
  · cases haw
  · cases haw
    exact hleave hcore' (Or.inl rfl)
  · cases haw
  · cases haw
    exact hleave hcore' (Or.inl rfl)
  all_goals cases haw

theorem HandoverInv.exec_connsGet (h : HandoverInv s) {cid : ConnectID} {k : AfterGet}
    (hb : k.pkt.belongsTo = some cid) (hcore : core (s.threads .serve) = [.connsGet cid k])
    (hnot : ¬ (Stopping (core (s.threads .serve)) ∨ s.shared.done = true))
    (hok : InTime s.shared .serve c (.connsGet cid k))
    (hex : exec s.shared .serve c (.connsGet cid k) = some (s₁, ops, start))
    (hcore' : core (threads .serve) = core ops ++ []) :
    HandoverInv ⟨s₁, threads⟩ := by
  -- A connection that was reported is found.
  have hfound : ∀ r, Reported s.shared.log r cid → s.shared.conns.lookup cid = some r := by
    intro r hr
    rcases h.handed r cid hr with hh | ⟨o, ho, hc⟩ | hd
    · rcases h.lookup cid r (hok.registered hh) with hl | hd
      · exact hl
      · exact absurd hd hnot
    · rw [hcore, List.mem_singleton] at ho
      subst ho
      exact hc.elim
    · exact absurd hd hnot
  simp only [Konnectivity.Client.exec] at hex
  cases hex
  have hcarry : ∀ r c, ∀ o ∈ core (s.threads .serve), ¬ o.carries r c := by
    intro r c o ho hc
    rw [hcore, List.mem_singleton] at ho
    subst ho
    exact hc.elim
  refine h.within hnot rfl rfl rfl (fun r c' hr => ?_) (fun c' k' hs r hr => ?_)
    (fun r c o ho hc => absurd hc (hcarry r c o ho))
  · rw [hcore, hcore']
    by_cases hc : c' = cid
    · subst hc
      rw [hfound r hr]
      cases k with
      | data pkt payload =>
          have hb : pkt.belongsTo = some c' := hb
          simp [AfterGet.next, core, Op.isMetric, Op.holds, AfterGet.pkt, hb]
      | closeRsp pkt error =>
          have hb : pkt.belongsTo = some c' := hb
          simp [AfterGet.next, core, Op.isMetric, Op.holds, serveExit, AfterGet.pkt, hb]
    · rw [held_of_ne hb hc]
      cases k with
      | data pkt payload =>
          have hne : pkt.belongsTo ≠ some c' := by
            rw [show pkt.belongsTo = some cid from hb]
            simpa using Ne.symm hc
          cases s.shared.conns.lookup cid with
          | none => simp [AfterGet.next, core, Op.isMetric, Op.holds]
          | some r' => simp [AfterGet.next, core, Op.isMetric, Op.holds, hne]
      | closeRsp pkt error =>
          have hne : pkt.belongsTo ≠ some c' := by
            rw [show pkt.belongsTo = some cid from hb]
            simpa using Ne.symm hc
          cases s.shared.conns.lookup cid with
          | none => simp [AfterGet.next]
          | some r' => simp [AfterGet.next, core, Op.isMetric, Op.holds, serveExit, hne]
  · rw [hcore'] at hs
    have hc : c' = cid ∧ s.shared.conns.lookup cid = none := by
      cases k <;> cases hl : s.shared.conns.lookup cid <;>
        simp [AfterGet.next, hl, core, Op.isMetric, serveExit] at hs
      exact ⟨by simpa [Packet.newCloseRequest] using hs.1, rfl⟩
    rw [hc.1] at hr
    rw [hfound r hr] at hc
    exact absurd hc.2 (by simp)

theorem HandoverInv.exec_sendReadCh (h : HandoverInv s) (hT : TunnelInv s) (hC : ChanInv s)
    {r : DialID} {pkt : Packet} {data : Bytes} {cid : ConnectID}
    (hr : .registered cid r ∈ s.shared.log) (hb : pkt.belongsTo = some cid)
    (hcore : core (s.threads .serve) = [.sendReadCh r pkt data])
    (hnot : ¬ (Stopping (core (s.threads .serve)) ∨ s.shared.done = true))
    (hok : InTime s.shared .serve c (.sendReadCh r pkt data))
    (hex : exec s.shared .serve c (.sendReadCh r pkt data) = some (s₁, ops, start))
    (hcore' : core (threads .serve) = core ops ++ []) :
    HandoverInv ⟨s₁, threads⟩ := by
  have hopen : (s.shared.conn r).readCh.closed = false := by
    refine Bool.eq_false_iff.mpr fun hc => ?_
    rcases hC.read r hc with hd | ⟨hd, -⟩
    · exact hnot (Or.inr hd)
    · rw [hcore] at hd
      simp at hd
  simp only [Konnectivity.Client.exec] at hex
  obtain ⟨⟨s', ops'⟩, hsend, heq⟩ := Option.map_eq_some_iff.mp hex
  cases heq
  unfold TunnelState.sendReadCh at hsend
  repeat' split at hsend
  · cases hsend
  · next hch => simp [GoChan.send, hopen] at hch
  · cases hsend
    refine h.deliver hT hr hb rfl rfl rfl hcore (fun c => ?_) (fun c => ?_) ?_ ?_ ?_
    · by_cases hc : pkt.belongsTo = some c <;> simp [Op.holds, hc]
    · rw [hcore']
      simp
    · rw [hcore] at hnot
      exact hnot
    · simp [Op.carries]
    · rw [hcore']
      simp
  · next htimeout => simp [InTime, Op.inTime, htimeout] at hok
  · next hctx =>
      rw [h.ctx] at hctx
      cases hctx
  all_goals cases hsend

theorem HandoverInv.exec_send (h : HandoverInv s) {cid : ConnectID}
    (hcore : core (s.threads .serve) = [.send (.newCloseRequest cid) .done])
    (hnot : ¬ (Stopping (core (s.threads .serve)) ∨ s.shared.done = true))
    (hex : exec s.shared .serve c (.send (.newCloseRequest cid) .done) = some (s₁, ops, start))
    (hcore' : core (threads .serve) = core ops ++ []) :
    HandoverInv ⟨s₁, threads⟩ := by
  have hunrep := h.sending cid .done (by rw [hcore]; exact List.mem_singleton.mpr rfl)
  simp only [Konnectivity.Client.exec, AfterSend.next] at hex
  cases hex
  refine h.answer hunrep rfl rfl rfl ?_ ?_ hnot ?_
  · rw [hcore]
    simp [Op.holds]
  · rw [hcore']
    rfl
  · rw [hcore]
    simp [Op.carries]

theorem HandoverInv.exec_closeReadCh (h : HandoverInv s) {r : DialID} {pkt : Packet}
    {error : String} {cid : ConnectID}
    (hcore : core (s.threads .serve) = [.closeReadCh r, .sendCloseCh r pkt error,
      .closeCloseCh r, .connsRemove cid, .closeAll, .closeDone])
    (hnot : ¬ (Stopping (core (s.threads .serve)) ∨ s.shared.done = true))
    (hex : exec s.shared .serve c (.closeReadCh r) = some (s₁, ops, start))
    (hcore' : core (threads .serve) = core ops ++ [.sendCloseCh r pkt error,
      .closeCloseCh r, .connsRemove cid, .closeAll, .closeDone]) :
    HandoverInv ⟨s₁, threads⟩ := by
  simp only [Konnectivity.Client.exec] at hex
  cases hex
  obtain ⟨h1, -, -, -, h5⟩ := closeReadCh_frame s.shared r
  refine h.step [_] h5 (by simp [Event.quiet]) (closeReadCh_ctx _ _) (fun r c _ => ?_) ?_
    (fun hs => absurd hs hnot) (fun r c o ho hc => ?_) (fun c r hr => ?_)
  · rw [hcore, hcore']
    simp [Op.holds]
  · rw [hcore']
    simp
  · rw [hcore] at ho
    simp only [List.mem_cons, List.not_mem_nil, or_false] at ho
    rcases ho with rfl | rfl | rfl | rfl | rfl | rfl <;> exact hc.elim
  · rw [h1]
    rw [h5] at hr
    exact (h.lookup c r (by simpa using hr)).imp_right fun hs => absurd hs hnot

theorem HandoverInv.exec_sendCloseCh (h : HandoverInv s) (hT : TunnelInv s) (hC : ChanInv s)
    {r : DialID} {pkt : Packet} {error : String} {cid : ConnectID}
    (hr : .registered cid r ∈ s.shared.log) (hb : pkt.belongsTo = some cid)
    (hcore : core (s.threads .serve) = [.sendCloseCh r pkt error, .closeCloseCh r,
      .connsRemove cid, .closeAll, .closeDone])
    (hnot : ¬ (Stopping (core (s.threads .serve)) ∨ s.shared.done = true))
    (hex : exec s.shared .serve c (.sendCloseCh r pkt error) = some (s₁, ops, start))
    (hcore' : core (threads .serve) = core ops ++ [.closeCloseCh r,
      .connsRemove cid, .closeAll, .closeDone]) :
    HandoverInv ⟨s₁, threads⟩ := by
  have hopen : (s.shared.conn r).closeCh.closed = false := by
    refine Bool.eq_false_iff.mpr fun hc => ?_
    rcases hC.close r hc with hd | ⟨-, hno⟩
    · exact hnot (Or.inr hd)
    · refine hno r pkt error ?_
      rw [hcore]
      exact List.mem_cons_self
  simp only [Konnectivity.Client.exec] at hex
  split at hex
  · cases hex
  · next hch => simp [GoChan.send, hopen] at hch
  · cases hex
    refine h.deliver hT hr hb rfl rfl rfl hcore (fun c => ?_) (fun c => ?_) ?_ ?_ ?_
    · by_cases hc : pkt.belongsTo = some c <;> simp [Op.holds, hc]
    · rw [hcore']
      simp [Op.holds]
    · rw [hcore] at hnot
      exact hnot
    · simp [Op.carries]
    · rw [hcore']
      simp

theorem HandoverInv.exec_closeCloseCh (h : HandoverInv s) {r : DialID} {cid : ConnectID}
    (hcore : core (s.threads .serve) = [.closeCloseCh r, .connsRemove cid, .closeAll, .closeDone])
    (hnot : ¬ (Stopping (core (s.threads .serve)) ∨ s.shared.done = true))
    (hex : exec s.shared .serve c (.closeCloseCh r) = some (s₁, ops, start))
    (hcore' : core (threads .serve) = core ops ++ [.connsRemove cid, .closeAll, .closeDone]) :
    HandoverInv ⟨s₁, threads⟩ := by
  simp only [Konnectivity.Client.exec] at hex
  split at hex <;> cases hex
  all_goals
    refine h.within hnot rfl rfl rfl (fun r c _ => ?_) ?_ (fun r c o ho hc => ?_)
    · rw [hcore, hcore']
      simp [Op.holds]
    · rw [hcore']
      simp
    · rw [hcore] at ho
      simp only [List.mem_cons, List.not_mem_nil, or_false] at ho
      rcases ho with rfl | rfl | rfl | rfl <;> exact hc.elim

theorem HandoverInv.exec_connsRemove (h : HandoverInv s) {cid : ConnectID}
    (hcore : core (s.threads .serve) = [.connsRemove cid, .closeAll, .closeDone])
    (hex : exec s.shared .serve c (.connsRemove cid) = some (s₁, ops, start))
    (hcore' : core (threads .serve) = core ops ++ [.closeAll, .closeDone]) :
    HandoverInv ⟨s₁, threads⟩ := by
  simp only [Konnectivity.Client.exec] at hex
  cases hex
  have hstop : Stopping (core (threads .serve)) := Or.inl hcore'
  refine h.step [] rfl (by simp) rfl (fun r c _ => ?_) ?_ (fun _ => Or.inl hstop)
    (fun r c o ho hc => Or.inr (Or.inr hstop)) (fun c r hr => Or.inr (Or.inl hstop))
  · rw [hcore, hcore']
    simp [Op.holds]
  · rw [hcore']
    simp

theorem HandoverInv.exec_closeAll (h : HandoverInv s)
    (hcore : core (s.threads .serve) = [.closeAll, .closeDone])
    (hex : exec s.shared .serve c .closeAll = some (s₁, ops, start))
    (hcore' : core (threads .serve) = core ops ++ [.closeDone]) :
    HandoverInv ⟨s₁, threads⟩ := by
  simp only [Konnectivity.Client.exec] at hex
  cases hex
  have hstop : Stopping (core (threads .serve)) := Or.inr hcore'
  obtain ⟨-, -, -, -, h5⟩ := closeAll_frame s.shared.conns.values s.shared
  refine h.step _ h5 ?_ (closeAll_ctx _ _) (fun r c _ => ?_) ?_ (fun _ => Or.inl hstop)
    (fun r c o ho hc => Or.inr (Or.inr hstop)) (fun c r hr => Or.inr (Or.inl hstop))
  · intro e he
    rw [List.mem_reverse] at he
    obtain ⟨r, -, rfl⟩ := List.mem_map.mp he
    rfl
  · rw [hcore, hcore']
    simp [Op.holds]
  · rw [hcore']
    simp

theorem HandoverInv.exec_closeDone (h : HandoverInv s)
    (hcore : core (s.threads .serve) = [.closeDone])
    (hex : exec s.shared .serve c .closeDone = some (s₁, ops, start))
    (hcore' : core (threads .serve) = core ops ++ []) :
    HandoverInv ⟨s₁, threads⟩ := by
  simp only [Konnectivity.Client.exec] at hex
  cases hex
  refine h.step [] rfl (by simp) rfl (fun r c _ => ?_) ?_ (fun _ => Or.inr rfl)
    (fun r c o ho hc => ?_) (fun c r hr => Or.inr (Or.inr rfl))
  · rw [hcore, hcore']
    simp [Op.holds]
  · rw [hcore']
    simp
  · rw [hcore, List.mem_singleton] at ho
    subst ho
    exact hc.elim

theorem HandoverInv.exec_serve (h : HandoverInv s) (hT : TunnelInv s) (hC : ChanInv s)
    (ht : s.threads .serve = op :: rest) (hm : op.isMetric = false)
    (hok : InTime s.shared .serve c op)
    (hex : exec s.shared .serve c op = some (s₁, ops, start))
    (hthreads : threads .serve = ops ++ rest) : HandoverInv ⟨s₁, threads⟩ := by
  have hcore : core (s.threads .serve) = op :: core rest := by
    rw [ht, core_cons hm]
  have hrun : s.shared.done = false := hT.running hcore
  have hserving := hT.serving
  rw [hcore] at hserving
  generalize hrest : core rest = tail at hserving
  rw [hrest] at hcore
  have hcore' : core (threads .serve) = core ops ++ tail := by
    rw [hthreads, core_append, hrest]
  have hgoing : ¬ Stopping (op :: tail) →
      ¬ (Stopping (core (s.threads .serve)) ∨ s.shared.done = true) := by
    intro hns
    rw [hcore, hrun]
    simpa using hns
  cases hserving with
  | dispatch => exact h.exec_dispatch hcore (hgoing (by simp [Stopping])) hok hex hcore'
  | pendingGet => exact h.exec_pendingGet hcore (hgoing (by simp [Stopping])) hex hcore'
  | offerResult => exact h.exec_offerResult hcore (hgoing (by simp [Stopping])) hex hcore'
  | awaitTaken => exact h.exec_awaitTaken hT hcore (hgoing (by simp [Stopping])) hex hcore'
  | @connsGet cid k hb =>
      exact h.exec_connsGet hb hcore (hgoing (by simp [Stopping])) hok hex hcore'
  | @sendReadCh r pkt data cid hr hb =>
      exact h.exec_sendReadCh hT hC hr hb hcore (hgoing (by simp [Stopping])) hok hex hcore'
  | send => exact h.exec_send hcore (hgoing (by simp [Stopping])) hex hcore'
  | closeReadCh => exact h.exec_closeReadCh hcore (hgoing (by simp [Stopping])) hex hcore'
  | @sendCloseCh r pkt error cid hr hb =>
      exact h.exec_sendCloseCh hT hC hr hb hcore (hgoing (by simp [Stopping])) hex hcore'
  | closeCloseCh => exact h.exec_closeCloseCh hcore (hgoing (by simp [Stopping])) hex hcore'
  | connsRemove => exact h.exec_connsRemove hcore hex hcore'
  | closeAll => exact h.exec_closeAll hcore hex hcore'
  | closeDone => exact h.exec_closeDone hcore hex hcore'

theorem HandoverInv.exec (h : HandoverInv s) (hT : TunnelInv s) (hC : ChanInv s)
    (ht : s.threads t = op :: rest) (hok : InTime s.shared t c op)
    (hex : exec s.shared t c op = some (s₁, ops, start)) :
    HandoverInv ⟨s₁, Pool.spawn (Function.update s.threads t (ops ++ rest)) start⟩ := by
  have hsame : Pool.spawn (Function.update s.threads t (ops ++ rest)) start .serve =
      Function.update s.threads t (ops ++ rest) .serve :=
    Pool.spawn_of_ne (exec_start hex (Or.inl rfl))
  by_cases hs : t = .serve
  · subst hs
    cases hm : op.isMetric with
    | true =>
        obtain ⟨rfl, hops, status, gauge, rfl⟩ := exec_metric hm hex
        refine h.aside [] rfl (by simp) (by simp) rfl rfl rfl ?_
        rw [hsame, Function.update_self, ht, core_append, core_metric hops]
        simp [core, hm]
    | false =>
        exact h.exec_serve hT hC ht hm hok hex (hsame.trans (Function.update_self ..))
  · have hop : op.byServe = false := Bool.eq_false_iff.mpr fun hop =>
      hs (hT.byServe hop (by rw [ht]; exact List.mem_cons_self))
    have hcore : core (Pool.spawn (Function.update s.threads t (ops ++ rest)) start .serve) =
        core (s.threads .serve) := by
      rw [hsame, Function.update_of_ne (Ne.symm hs)]
    obtain ⟨es, hlog, hby, hctx, hdone, -, hconns⟩ := exec_aside hop hex
    have hes : ∀ e ∈ es, e.quiet = true := fun e he => (hby e he).quiet hs
    rcases hconns with ⟨cid, r, rfl, hconns, -⟩ | ⟨hconns, hreg, -⟩
    · have hnew := hT.exec ht hex
      refine h.step _ hlog hes hctx (fun r c _ => by rw [hcore]) ?_ ?_ ?_ (fun c' r' hr => ?_)
      · rw [hcore]
        exact h.sending
      · rw [hcore, hdone]
        exact id
      · intro r c o ho hc
        rw [hcore]
        exact Or.inr (Or.inl ⟨o, ho, hc⟩)
      · -- There is one registration, this one.
        have hthis : .registered cid r ∈ s₁.log := by
          rw [hlog]
          exact List.mem_cons_self
        obtain ⟨rfl, rfl⟩ := DialHistory.registered_unique hnew.history.justified hr hthis
        refine Or.inl ?_
        rw [hconns, AList.lookup_insert]
    · exact h.aside es hlog hes hreg hctx hdone hconns hcore

/-- `serve` takes the next packet. -/
theorem HandoverInv.receive (h : HandoverInv s) (hT : TunnelInv s) {pkt : Packet}
    (hok : Undisturbed s.shared (.receive pkt)) (hrun : s.shared.done = false)
    (hidle : s.threads .serve = []) (hthreads : threads .serve = [.dispatch pkt]) :
    HandoverInv ⟨s.shared.record (.received pkt), threads⟩ := by
  have hold : core (s.threads .serve) = [] := by rw [hidle, core_nil]
  have hnew : core (threads .serve) = [.dispatch pkt] := by
    rw [hthreads]
    rfl
  have hnot : ¬ (Stopping (core (s.threads .serve)) ∨ s.shared.done = true) := by
    rw [hold, hrun]
    simp [Stopping]
  have hrep : ∀ {r c}, Reported (.received pkt :: s.shared.log) r c →
      Reported s.shared.log r c ∨ pkt.reportsConn = some (r, c) := by
    rintro r c ⟨pkt', hp, hr⟩
    rcases List.mem_cons.mp hp with heq | hp
    · cases heq
      exact Or.inr hr
    · exact Or.inl ⟨pkt', hp, hr⟩
  -- Nothing was delivered for a connection before it was reported.
  have hnone : ∀ {r c}, ¬ Reported s.shared.log r c → deliveries r c s.shared.log = [] := by
    intro r c hr
    refine List.filterMap_eq_nil_iff.mpr fun e he => ?_
    cases e with
    | delivered r' pkt' =>
        rw [Event.delivers, if_neg]
        rintro ⟨rfl, hb⟩
        obtain ⟨c', hreg, hb'⟩ := hT.history.delivered he
        rw [hb] at hb'
        cases hb'
        exact hr ((hT.history.handed (hT.history.registered hreg)).2 rfl)
    | _ => rfl
  refine ⟨h.ctx, fun r c hr => ?_, fun r c hr => ?_, fun r c => h.refused r c,
    fun c k ho => ?_, fun r c hr => ?_, fun c r hr => ?_⟩
  · rcases hrep hr with hr | hr
    · exact h.nonzero r c hr
    · exact hok _ hr
  · change arrivals r c (.received pkt :: s.shared.log) =
      held c (core (threads .serve)) ++ deliveries r c s.shared.log
    rw [hnew, arrivals]
    by_cases hr' : Reported s.shared.log r c
    · have hbal := h.balance r c hr'
      rw [hold] at hbal
      rw [hbal]
      by_cases hb : pkt.belongsTo = some c <;>
        simp [hb, reported_iff.mpr hr', Op.holds]
    · have hrc := (hrep hr).resolve_left hr'
      have hb : pkt.belongsTo = none := by
        unfold Packet.reportsConn at hrc
        unfold Packet.belongsTo
        split at hrc
        · next htype hpay => simp [htype]
        · cases hrc
      rw [if_neg (by rw [hb]; simp), arrivals_unreported hr', hnone hr']
      simp [Op.holds, hb]
  · dsimp only at ho
    rw [hnew] at ho
    simp at ho
  · rcases hrep hr with hr | hr
    · rcases h.handed r c hr with hh | ⟨o, ho, -⟩ | hd
      · exact Or.inl (List.mem_cons_of_mem _ hh)
      · rw [hold] at ho
        cases ho
      · exact absurd hd hnot
    · refine Or.inr (Or.inl ⟨.dispatch pkt, ?_, hr⟩)
      dsimp only
      rw [hnew]
      exact List.mem_singleton.mpr rfl
  · exact (h.lookup c r (by simpa using hr)).imp_right fun hs => absurd hs hnot

theorem HandoverInv.arrive (h : HandoverInv s) (hT : TunnelInv s) {a : TunnelAction}
    (hok : Undisturbed s.shared a) (harr : arrive s.shared a = some (s₁, start))
    (hthreads : Pool.Arrived s.threads start threads) : HandoverInv ⟨s₁, threads⟩ := by
  have hother : ∀ {x : Tid} {ops : List Op}, x ≠ .serve → start = some (x, ops) →
      core (threads .serve) = core (s.threads .serve) := by
    rintro x ops hx rfl
    rw [hthreads.2, Function.update_of_ne (Ne.symm hx)]
  have hsame : start = none → core (threads .serve) = core (s.threads .serve) := by
    rintro rfl
    rw [show threads = s.threads from hthreads]
  cases a with
  | receive pkt =>
      have hrun : s.shared.done = false := by
        simp only [Konnectivity.Client.arrive] at harr
        split at harr
        · cases harr
        · next hd => exact Bool.eq_false_iff.mpr hd
      simp only [Konnectivity.Client.arrive, hrun] at harr
      cases harr
      exact h.receive hT hok hrun hthreads.1 hthreads.started
  | recvEnd =>
      simp only [Konnectivity.Client.arrive] at harr
      split at harr <;> cases harr
      have hcore' : core (threads .serve) = core serveExit := by rw [hthreads.started]
      have hstop : Stopping (core (threads .serve)) := Or.inl hcore'
      refine h.step [] rfl (by simp) rfl (fun r c _ => ?_) ?_ (fun _ => Or.inl hstop)
        (fun r c o ho hc => Or.inr (Or.inr hstop)) (fun c r hr => Or.inr (Or.inl hstop))
      · rw [hthreads.1, hcore', core_serveExit]
        simp [Op.holds]
      · rw [hcore', core_serveExit]
        simp
  | cancelTunnel => exact hok.elim
  | dialContext r protocol address =>
      simp only [Konnectivity.Client.arrive] at harr
      split at harr
      · cases harr
        exact h.aside [_] rfl (by simp [Event.quiet]) (by simp) rfl rfl rfl (hsame rfl)
      · cases harr
        exact h.aside [_] rfl (by simp [Event.quiet]) (by simp) rfl rfl rfl (hother (by simp) rfl)
  | read r n =>
      simp only [Konnectivity.Client.arrive] at harr
      repeat' split at harr
      all_goals cases harr
      all_goals exact h.aside [_] rfl (by simp [Event.quiet]) (by simp) rfl rfl rfl (hsame rfl)
  | write k r data =>
      simp only [Konnectivity.Client.arrive] at harr
      split at harr <;> cases harr
      exact h.aside [] rfl (by simp) (by simp) rfl rfl rfl (hother (by simp) rfl)
  | close k r =>
      simp only [Konnectivity.Client.arrive] at harr
      split at harr <;> cases harr
      exact h.aside [] rfl (by simp) (by simp) rfl rfl rfl (hother (by simp) rfl)

end Steps

/-- In the runs in which every lookup finds its connection registered, a
connection is given every packet received for it. -/
theorem tunnel_handover {okExec : TunnelState → Tid → Choice → Op → Prop}
    {okArrive : TunnelState → TunnelAction → Prop} {s : System.State TunnelState Tid Op}
    (hexec : ∀ s t c op, okExec s t c op → InTime s t c op)
    (harrive : ∀ s a, okArrive s a → Undisturbed s a)
    (h : Reach tunnel.step (System.Allowed okExec okArrive) newTunnel s) : HandoverInv s := by
  refine System.invariant_state HandoverInv ?_ ?_ ?_ h
  · refine ⟨rfl, ?_, ?_, fun r c => rfl, ?_, ?_, (fun c r hr => nomatch hr)⟩
    · rintro r c ⟨pkt, hp, -⟩
      cases hp
    · rintro r c ⟨pkt, hp, -⟩
      cases hp
    · exact fun c k ho => nomatch ho
    · rintro r c ⟨pkt, hp, -⟩
      cases hp
  · intro s t c o rest s₁ ops start hr hinv _ ht hok hex
    exact hinv.exec (tunnel_inv hr) (tunnel_chans hr) ht (hexec _ _ _ _ hok) hex
  · intro s a s₁ start threads hr hinv _ hok harr hthreads
    exact hinv.arrive (tunnel_inv hr) (harrive _ _ hok) harr hthreads

theorem held_core (c : ConnectID) (ops : List Op) : held c (core ops) = held c ops :=
  filterMap_core (fun o hm => by cases o <;> first | rfl | cases hm) ops

/-! ## No packet is lost -/

/-- Over any run in which the tunnel context is not cancelled, no read times
out, the tunnel is not being closed when `serve` takes a packet, and `serve`
looks a connection up only after `dialContext` has registered it: the
connection is given every packet received for it after its `DIAL_RSP`, and
`serve` never asks for it to be closed. -/
theorem conn_receives_all {s : System.State TunnelState Tid Op}
    (h : Reach tunnel.step (System.Allowed InTime Undisturbed) newTunnel s) (r : DialID)
    (c : ConnectID) : ReceivesAll s r c := by
  have hinv := tunnel_handover (fun _ _ _ _ h => h) (fun _ _ h => h) h
  refine ⟨fun hr => ?_, hinv.refused r c⟩
  rw [← held_core]
  exact hinv.balance r c (reported_iff.mp hr)

/-- A remote that speaks after the connection is registered. -/
theorem conn_receives_all_registered :
    ∃ s : System.State TunnelState Tid Op,
      Reach tunnel.step (System.Allowed InTime Undisturbed) newTunnel s ∧
        .dialReturned 10 (.conn 1) ∈ s.shared.log ∧
        deliveries 10 1 s.shared.log = [.ofCloseResponse ⟨"", 1⟩, .ofData ⟨1, "", [7]⟩] ∧
        ReceivesAll s 10 1 := by
  let acts : List (System.Action Tid TunnelAction Choice) :=
    [.arrive (.dialContext 10 "tcp" "h"), .run .dial {}, .run .dial {}, .run .dial {},
      .run .dial {}, .run .dial {}, .run .dial {}, .run .dial {},
      .arrive (.receive (.ofDialResponse ⟨"", 1, 10⟩)), .run .serve {}, .run .serve {},
      .run .serve {}, .run .serve {}, .run .serve {}, .run .serve {}, .run .serve {},
      .run .dial {}, .run .serve {}, .run .dial {}, .run .dial {}, .run .dial {}, .run .dial {},
      .arrive (.receive (.ofData ⟨1, "", [7]⟩)), .run .serve {}, .run .serve {}, .run .serve {},
      .arrive (.receive (.ofCloseResponse ⟨"", 1⟩)), .run .serve {}, .run .serve {},
      .run .serve {}, .run .serve {}]
  have hrun : ∃ s, run tunnel.step newTunnel acts = some s ∧
      .dialReturned 10 (.conn 1) ∈ s.shared.log ∧
      deliveries 10 1 s.shared.log = [.ofCloseResponse ⟨"", 1⟩, .ofData ⟨1, "", [7]⟩] :=
    ⟨_, rfl, by decide, by decide⟩
  obtain ⟨s, hs, hret, hdel⟩ := hrun
  have hreach : Reach tunnel.step (System.Allowed InTime Undisturbed) newTunnel s :=
    reach_of_run hs (by decide)
  exact ⟨s, hreach, hret, hdel, conn_receives_all hreach 10 1⟩

/-- A remote that speaks first: its `DATA` packet is looked up between the
hand-over and the registration. It is answered with a `CLOSE_REQ`, and the
connection `dialContext` then returns never gets it. -/
theorem conn_loses_first_packet :
    ∃ s : System.State TunnelState Tid Op,
      Reach tunnel.step (System.Allowed (fun _ _ _ _ => True) Undisturbed) newTunnel s ∧
        .dialReturned 10 (.conn 1) ∈ s.shared.log ∧ s.shared.ctxDone = false ∧
        s.shared.closing = false ∧ s.threads .serve = [] ∧
        arrivals 10 1 s.shared.log = [.ofData ⟨1, "", [7]⟩] ∧ deliveries 10 1 s.shared.log = [] ∧
        .sent .serve (.newCloseRequest 1) true ∈ s.shared.log ∧ ¬ ReceivesAll s 10 1 := by
  let acts : List (System.Action Tid TunnelAction Choice) :=
    [.arrive (.dialContext 10 "tcp" "h"), .run .dial {}, .run .dial {}, .run .dial {},
      .run .dial {}, .run .dial {}, .run .dial {}, .run .dial {},
      .arrive (.receive (.ofDialResponse ⟨"", 1, 10⟩)), .run .serve {}, .run .serve {},
      .run .serve {}, .run .serve {}, .run .serve {}, .run .serve {}, .run .serve {},
      .run .dial {}, .run .serve {}, .arrive (.receive (.ofData ⟨1, "", [7]⟩)), .run .serve {},
      .run .serve {}, .run .serve {}, .run .dial {}, .run .dial {}, .run .dial {}, .run .dial {}]
  have hrun : ∃ s, run tunnel.step newTunnel acts = some s ∧
      .dialReturned 10 (.conn 1) ∈ s.shared.log ∧ s.shared.ctxDone = false ∧
      s.shared.closing = false ∧ s.threads .serve = [] ∧
      arrivals 10 1 s.shared.log = [.ofData ⟨1, "", [7]⟩] ∧ deliveries 10 1 s.shared.log = [] ∧
      .sent .serve (.newCloseRequest 1) true ∈ s.shared.log ∧ refused 10 1 s.shared.log = true :=
    ⟨_, rfl, by decide, rfl, rfl, rfl, by decide, by decide,
      by decide, by decide⟩
  obtain ⟨s, hs, hret, hctx, hclosing, hidle, harr, hdel, hsent, href⟩ := hrun
  refine ⟨s, reach_of_run hs (by decide), hret, hctx, hclosing, hidle, harr, hdel, hsent,
    fun h => ?_⟩
  rw [h.2] at href
  cases href

end Konnectivity.Client
