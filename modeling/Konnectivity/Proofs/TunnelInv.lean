import Konnectivity.Client.Tunnel

/-!
# Where the goroutines of a tunnel are

`serve` and `dialContext` each follow one path at a time. This file writes the
paths down as the lists of operations the two goroutines can be left with,
metrics aside, together with what the log says of the values in them, and
proves that a tunnel never leaves them. What the two share is small: the offer
on the result channel, the table of connections, and the history of the one
dial.
-/

namespace Konnectivity.Client

open Lib

/-- The operations that only touch the gauge. -/
def Op.isMetric : Op → Bool
  | .updateMetric _ | .swapStatus _ | .gaugeDec _ | .gaugeInc _ | .closeMetric | .loadStatus => true
  | _ => false

/-- The operations of the users and of the goroutines started for them. -/
def Op.outer : Op → Bool
  | .send _ (.dialReq _) => false
  | .send _ _ | .connClose _ | .closeCheckDone _ | .awaitClose _ | .closeTunnel => true
  | _ => false

theorem outer_one {o : Op} (h : o.outer = true) : ∀ o' ∈ [o], o'.outer = true := by
  intro o' ho
  rw [List.mem_singleton.mp ho]
  exact h

/-- A goroutine without its metrics. -/
def core (ops : List Op) : List Op := ops.filter fun o => !o.isMetric

@[simp]
theorem core_nil : core [] = [] := rfl

theorem core_append (ops rest : List Op) : core (ops ++ rest) = core ops ++ core rest :=
  List.filter_append ..

theorem core_cons {op : Op} (h : op.isMetric = false) (rest : List Op) :
    core (op :: rest) = op :: core rest := by
  simp [core, h]

theorem core_metric {ops : List Op} (h : ∀ o ∈ ops, o.isMetric = true) : core ops = [] := by
  simpa [core, List.filter_eq_nil_iff] using h

theorem mem_core {o : Op} {ops : List Op} : o ∈ core ops ↔ o ∈ ops ∧ o.isMetric = false := by
  simp [core]

/-- What is read off the operations that are not metrics can be read off the core. -/
theorem filterMap_core {α : Type} {f : Op → Option α} (hf : ∀ o, o.isMetric = true → f o = none)
    (ops : List Op) : (core ops).filterMap f = ops.filterMap f := by
  unfold core
  rw [List.filterMap_filter]
  refine List.filterMap_congr fun o _ => ?_
  cases hm : o.isMetric with
  | true => simp [hf o hm]
  | false => simp

/-- The agent reported the connection in a `DIAL_RSP` that `serve` received. -/
def Reported (log : List Event) (r : DialID) (c : ConnectID) : Prop :=
  ∃ pkt, .received pkt ∈ log ∧ pkt.reportsConn = some (r, c)

theorem Reported.mono {log log' : List Event} {r : DialID} {c : ConnectID} (hsub : log ⊆ log')
    (h : Reported log r c) : Reported log' r c := by
  obtain ⟨pkt, hp, hr⟩ := h
  exact ⟨pkt, hsub hp, hr⟩

/-- The packet a connection is looked up for. -/
def AfterGet.pkt : AfterGet → Packet
  | .data pkt _ => pkt
  | .closeRsp pkt _ => pkt

/-! ## The paths -/

/-- The paths of `serve`. -/
inductive Serving (log : List Event) : List Op → Prop
  | idle : Serving log []
  | dispatch {pkt : Packet} (h : .received pkt ∈ log) : Serving log [.dispatch pkt]
  | pendingGet {r : DialID} {res : DialResult} (h : res.err = none → Reported log r res.connid) :
      Serving log [.pendingGet r res]
  | offerResult {r : DialID} {res : DialResult} (h : res.err = none → Reported log r res.connid) :
      Serving log [.offerResult r res]
  | awaitTaken {r : DialID} {res : DialResult} (h : res.err = none → Reported log r res.connid) :
      Serving log [.awaitTaken r res]
  | connsGet {c : ConnectID} {k : AfterGet} (h : k.pkt.belongsTo = some c) :
      Serving log [.connsGet c k]
  | sendReadCh {r : DialID} {pkt : Packet} {data : Bytes} {c : ConnectID}
      (hr : .registered c r ∈ log) (h : pkt.belongsTo = some c) :
      Serving log [.sendReadCh r pkt data]
  | send {c : ConnectID} : Serving log [.send (.newCloseRequest c) .done]
  | closeReadCh {r : DialID} {pkt : Packet} {error : String} {c : ConnectID}
      (hr : .registered c r ∈ log) (h : pkt.belongsTo = some c) :
      Serving log [.closeReadCh r, .sendCloseCh r pkt error, .closeCloseCh r, .connsRemove c,
        .closeAll, .closeDone]
  | sendCloseCh {r : DialID} {pkt : Packet} {error : String} {c : ConnectID}
      (hr : .registered c r ∈ log) (h : pkt.belongsTo = some c) :
      Serving log [.sendCloseCh r pkt error, .closeCloseCh r, .connsRemove c, .closeAll,
        .closeDone]
  | closeCloseCh {r : DialID} {c : ConnectID} (hr : .registered c r ∈ log) :
      Serving log [.closeCloseCh r, .connsRemove c, .closeAll, .closeDone]
  | connsRemove {r : DialID} {c : ConnectID} (hr : .registered c r ∈ log) :
      Serving log [.connsRemove c, .closeAll, .closeDone]
  | closeAll : Serving log [.closeAll, .closeDone]
  | closeDone : Serving log [.closeDone]

theorem Serving.mono {log log' : List Event} {ops : List Op} (hsub : log ⊆ log')
    (h : Serving log ops) : Serving log' ops := by
  cases h with
  | idle => exact .idle
  | dispatch h => exact .dispatch (hsub h)
  | pendingGet h => exact .pendingGet fun he => (h he).mono hsub
  | offerResult h => exact .offerResult fun he => (h he).mono hsub
  | awaitTaken h => exact .awaitTaken fun he => (h he).mono hsub
  | connsGet h => exact .connsGet h
  | sendReadCh hr h => exact .sendReadCh (hsub hr) h
  | send => exact .send
  | closeReadCh hr h => exact .closeReadCh (hsub hr) h
  | sendCloseCh hr h => exact .sendCloseCh (hsub hr) h
  | closeCloseCh hr => exact .closeCloseCh (hsub hr)
  | connsRemove hr => exact .connsRemove (hsub hr)
  | closeAll => exact .closeAll
  | closeDone => exact .closeDone

/-- The paths of `dialContext`. -/
inductive Dialing (log : List Event) : List Op → Prop
  | idle : Dialing log []
  | checkDone {r : DialID} {protocol address : String} (hd : .dialing r ∈ log) :
      Dialing log [.checkDone r protocol address]
  | pendingAdd {r : DialID} {pkt : Packet} (hd : .dialing r ∈ log) :
      Dialing log [.pendingAdd r, .send pkt (.dialReq r)]
  | send {r : DialID} {pkt : Packet} (hd : .dialing r ∈ log) :
      Dialing log [.send pkt (.dialReq r)]
  | awaitResult {r : DialID} (hd : .dialing r ∈ log) : Dialing log [.awaitResult r]
  | connsAdd {r : DialID} {c : ConnectID} (hh : .handed r ⟨none, c⟩ ∈ log) :
      Dialing log (.connsAdd c r :: dialExit r (.conn c))
  | pendingRemove {r : DialID} {ret : DialReturn}
      (hret : ∀ c, ret = .conn c → .registered c r ∈ log) : Dialing log (dialExit r ret)
  | closeCancelCh {r : DialID} {ret : DialReturn}
      (hret : ∀ c, ret = .conn c → .registered c r ∈ log) :
      Dialing log [.closeCancelCh r, .dialReturn r ret]
  | dialReturn {r : DialID} {ret : DialReturn}
      (hret : ∀ c, ret = .conn c → .registered c r ∈ log) : Dialing log [.dialReturn r ret]

theorem Dialing.mono {log log' : List Event} {ops : List Op} (hsub : log ⊆ log')
    (h : Dialing log ops) : Dialing log' ops := by
  cases h with
  | idle => exact .idle
  | checkDone hd => exact .checkDone (hsub hd)
  | pendingAdd hd => exact .pendingAdd (hsub hd)
  | send hd => exact .send (hsub hd)
  | awaitResult hd => exact .awaitResult (hsub hd)
  | connsAdd hh => exact .connsAdd (hsub hh)
  | pendingRemove hret => exact .pendingRemove fun c hc => hsub (hret c hc)
  | closeCancelCh hret => exact .closeCancelCh fun c hc => hsub (hret c hc)
  | dialReturn hret => exact .dialReturn fun c hc => hsub (hret c hc)

/-- The operations of `dialContext` up to the registration of its connection. -/
def Op.unregistered : Op → Bool
  | .checkDone _ _ _ | .pendingAdd _ | .send _ (.dialReq _) | .awaitResult _ | .connsAdd _ _ =>
      true
  | _ => false

theorem Op.not_metric_of_outer {o : Op} (h : o.outer = true) : o.isMetric = false := by
  cases o <;> first | rfl | cases h

theorem Op.not_metric_of_unregistered {o : Op} (h : o.unregistered = true) :
    o.isMetric = false := by
  cases o <;> first | rfl | cases h

/-! ## The invariant -/

/-- What an event says about the log before it. -/
def Event.Justified : Event → List Event → Prop
  | .dialing _, log => ∀ r, .dialing r ∉ log
  | .handed r res, log => .dialing r ∈ log ∧ (res.err = none → Reported log r res.connid)
  | .registered c r, log => .handed r ⟨none, c⟩ ∈ log ∧ ∀ c r, .registered c r ∉ log
  | .dialReturned r (.conn c), log => .registered c r ∈ log
  | .delivered r pkt, log => ∃ c, .registered c r ∈ log ∧ pkt.belongsTo = some c
  | _, _ => True

/-- The history of the dial, and the tables that go with it. -/
structure DialHistory (s : TunnelState) : Prop where
  justified : Pool.Each Event.Justified s.log
  started : ∀ r, .dialing r ∈ s.log → s.started = true
  conns : ∀ c r, s.conns.lookup c = some r → .registered c r ∈ s.log
  taken : ∀ r, (s.chans r).taken = true →
    ∃ res, (s.chans r).offer = some res ∧ .handed r res ∈ s.log

/-- What an event says holds of the whole log too, if it is monotone. -/
theorem justified_mem {log : List Event} (h : Pool.Each Event.Justified log) {e : Event}
    (he : e ∈ log) : ∃ earlier, earlier ⊆ log ∧ e.Justified earlier := by
  obtain ⟨later, earlier, heq, hj⟩ := h.mem he
  refine ⟨earlier, fun x hx => ?_, hj⟩
  rw [heq]
  exact List.mem_append_right _ (List.mem_cons_of_mem _ hx)

namespace DialHistory

variable {s : TunnelState} (h : DialHistory s)

include h

theorem handed {r : DialID} {res : DialResult} (hr : .handed r res ∈ s.log) :
    .dialing r ∈ s.log ∧ (res.err = none → Reported s.log r res.connid) := by
  obtain ⟨earlier, hsub, hd, hrep⟩ := justified_mem h.justified hr
  exact ⟨hsub hd, fun he => (hrep he).mono hsub⟩

theorem registered {c : ConnectID} {r : DialID} (hr : .registered c r ∈ s.log) :
    .handed r ⟨none, c⟩ ∈ s.log := by
  obtain ⟨earlier, hsub, hh, -⟩ := justified_mem h.justified hr
  exact hsub hh

theorem returned {r : DialID} {c : ConnectID} (hr : .dialReturned r (.conn c) ∈ s.log) :
    .registered c r ∈ s.log := by
  obtain ⟨earlier, hsub, hreg⟩ := justified_mem h.justified hr
  exact hsub hreg

theorem delivered {r : DialID} {pkt : Packet} (hr : .delivered r pkt ∈ s.log) :
    ∃ c, .registered c r ∈ s.log ∧ pkt.belongsTo = some c := by
  obtain ⟨earlier, hsub, c, hreg, hb⟩ := justified_mem h.justified hr
  exact ⟨c, hsub hreg, hb⟩

omit h in
theorem dialing_unique {log : List Event} (h : Pool.Each Event.Justified log) {r r' : DialID}
    (hr : .dialing r ∈ log) (hr' : .dialing r' ∈ log) : r = r' := by
  induction log with
  | nil => cases hr
  | cons e log ih =>
      rcases List.mem_cons.mp hr with rfl | hm
      · rcases List.mem_cons.mp hr' with heq | hm'
        · cases heq
          rfl
        · exact absurd hm' (h.1 r')
      · rcases List.mem_cons.mp hr' with rfl | hm'
        · exact absurd hm (h.1 r)
        · exact ih h.2 hm hm'

omit h in
theorem registered_unique {log : List Event} (h : Pool.Each Event.Justified log)
    {c c' : ConnectID} {r r' : DialID} (hr : .registered c r ∈ log)
    (hr' : .registered c' r' ∈ log) : c = c' ∧ r = r' := by
  induction log with
  | nil => cases hr
  | cons e log ih =>
      rcases List.mem_cons.mp hr with rfl | hm
      · rcases List.mem_cons.mp hr' with heq | hm'
        · cases heq
          exact ⟨rfl, rfl⟩
        · exact absurd hm' (h.1.2 c' r')
      · rcases List.mem_cons.mp hr' with rfl | hm'
        · exact absurd hm (h.1.2 c r)
        · exact ih h.2 hm hm'

end DialHistory

structure TunnelInv (s : System.State TunnelState Tid Op) : Prop where
  serving : Serving s.shared.log (core (s.threads .serve))
  dialing : Dialing s.shared.log (core (s.threads .dial))
  outer : ∀ t, t ≠ .serve → t ≠ .dial → ∀ o ∈ s.threads t, o.outer = true
  history : DialHistory s.shared
  fresh : ∀ o ∈ s.threads .dial, o.unregistered = true → ∀ c r, .registered c r ∉ s.shared.log
  offered : ∀ r res, (s.shared.chans r).offer = some res ↔
    core (s.threads .serve) = [.awaitTaken r res]
  done : s.shared.done = true → core (s.threads .serve) = []

/-! ## Frames -/

/-- The events that say nothing of the dial. -/
def Event.neutral : Event → Bool
  | .received _ | .readClosed _ | .sent _ _ _ | .readReturned _ _ => true
  | .dialReturned _ (.failed _) => true
  | _ => false

theorem mem_of_neutral {es log : List Event} {e : Event} (hes : ∀ e ∈ es, e.neutral = true)
    (he : e.neutral = false) (h : e ∈ es ++ log) : e ∈ log := by
  rcases List.mem_append.mp h with h | h
  · rw [hes e h] at he
    cases he
  · exact h

section Frames

variable {s s₁ : TunnelState}

theorem each_neutral {log : List Event} (h : Pool.Each Event.Justified log) :
    ∀ {es : List Event}, (∀ e ∈ es, e.neutral = true) → Pool.Each Event.Justified (es ++ log)
  | [], _ => h
  | e :: es, hes => by
      refine ⟨?_, each_neutral h fun x hx => hes x (List.mem_cons_of_mem _ hx)⟩
      have hneutral := hes e List.mem_cons_self
      cases e with
      | dialReturned r ret =>
          cases ret with
          | conn c => cases hneutral
          | failed err => trivial
      | received pkt => trivial
      | readClosed r => trivial
      | sent t pkt ok => trivial
      | readReturned r data => trivial
      | _ => cases hneutral

theorem DialHistory.frame (h : DialHistory s) (es : List Event)
    (hconns : s₁.conns = s.conns) (hchans : s₁.chans = s.chans)
    (hstarted : s₁.started = s.started) (hlog : s₁.log = es ++ s.log)
    (hes : ∀ e ∈ es, e.neutral = true) : DialHistory s₁ := by
  have hsub : s.log ⊆ s₁.log := by
    rw [hlog]
    exact List.subset_append_right _ _
  refine ⟨hlog ▸ each_neutral h.justified hes, fun r hr => ?_, fun c r hc => ?_, fun r hr => ?_⟩
  · rw [hstarted]
    exact h.started r (mem_of_neutral hes rfl (hlog ▸ hr))
  · exact hsub (h.conns c r (hconns ▸ hc))
  · rw [hchans] at hr ⊢
    obtain ⟨res, ho, hh⟩ := h.taken r hr
    exact ⟨res, ho, hsub hh⟩

/-- An event of the dial is recorded. -/
theorem DialHistory.extend (h : DialHistory s) (e : Event) (he : e.Justified s.log)
    (hnew : ∀ r, e ≠ .dialing r) (hconns : s₁.conns = s.conns) (hchans : s₁.chans = s.chans)
    (hstarted : s₁.started = s.started) (hlog : s₁.log = e :: s.log) : DialHistory s₁ := by
  have hsub : s.log ⊆ s₁.log := by
    rw [hlog]
    exact List.subset_cons_self _ _
  refine ⟨hlog ▸ ⟨he, h.justified⟩, fun r hr => ?_, fun c r hc => ?_, fun r hr => ?_⟩
  · rw [hstarted]
    exact h.started r ((List.mem_cons.mp (hlog ▸ hr)).resolve_left (Ne.symm (hnew r)))
  · exact hsub (h.conns c r (hconns ▸ hc))
  · rw [hchans] at hr ⊢
    obtain ⟨res, ho, hh⟩ := h.taken r hr
    exact ⟨res, ho, hsub hh⟩

theorem setChans_other {r r' : DialID} {x : DialChans} (hr : r' ≠ r) :
    (s.setChans r x).chans r' = s.chans r' :=
  Function.update_of_ne hr _ _

theorem setChans_self {r : DialID} {x : DialChans} : (s.setChans r x).chans r = x :=
  Function.update_self ..

theorem DialHistory.setChans (h : DialHistory s) {r : DialID} {x : DialChans}
    (hx : x.taken = true → ∃ res, x.offer = some res ∧ .handed r res ∈ s.log) :
    DialHistory (s.setChans r x) := by
  refine ⟨h.justified, h.started, h.conns, fun r' hr' => ?_⟩
  by_cases hr : r' = r
  · subst hr
    rw [setChans_self] at hr' ⊢
    exact hx hr'
  · rw [setChans_other hr] at hr' ⊢
    exact h.taken r' hr'

theorem closeReadCh_frame (s : TunnelState) (r : DialID) :
    (s.closeReadCh r).conns = s.conns ∧ (s.closeReadCh r).chans = s.chans ∧
      (s.closeReadCh r).started = s.started ∧ (s.closeReadCh r).done = s.done ∧
      (s.closeReadCh r).log = .readClosed r :: s.log := by
  unfold TunnelState.closeReadCh
  split <;> exact ⟨rfl, rfl, rfl, rfl, rfl⟩

theorem closeAll_frame (rs : List DialID) (s : TunnelState) :
    (rs.foldl TunnelState.closeReadCh s).conns = s.conns ∧
      (rs.foldl TunnelState.closeReadCh s).chans = s.chans ∧
      (rs.foldl TunnelState.closeReadCh s).started = s.started ∧
      (rs.foldl TunnelState.closeReadCh s).done = s.done ∧
      (rs.foldl TunnelState.closeReadCh s).log = (rs.map Event.readClosed).reverse ++ s.log := by
  induction rs generalizing s with
  | nil => exact ⟨rfl, rfl, rfl, rfl, rfl⟩
  | cons r rs ih =>
      obtain ⟨h1, h2, h3, h4, h5⟩ := closeReadCh_frame s r
      obtain ⟨i1, i2, i3, i4, i5⟩ := ih (s.closeReadCh r)
      refine ⟨i1.trans h1, i2.trans h2, i3.trans h3, i4.trans h4, ?_⟩
      rw [List.foldl_cons, i5, h5]
      simp

end Frames

/-! ## The steps of each goroutine -/

section Steps

variable {s : System.State TunnelState Tid Op} {s₁ : TunnelState} {t : Tid} {c : Choice} {op : Op}
  {ops rest : List Op} {start : Option (Tid × List Op)}

theorem exec_metric {s : TunnelState} (h : op.isMetric = true)
    (hex : exec s t c op = some (s₁, ops, start)) :
    start = none ∧ (∀ o ∈ ops, o.isMetric = true) ∧
      ∃ status gauge, s₁ = { s with prevStatus := status, gauge := gauge } := by
  cases op with
  | updateMetric status =>
      simp only [exec] at hex
      cases hex
      refine ⟨rfl, fun o ho => ?_, _, _, rfl⟩
      split at ho
      · cases ho
      · rw [List.mem_singleton.mp ho]
        rfl
  | swapStatus status =>
      simp only [exec] at hex
      cases hex
      refine ⟨rfl, fun o ho => ?_, _, _, rfl⟩
      simp only [List.mem_cons, List.not_mem_nil, or_false] at ho
      rcases ho with rfl | rfl <;> rfl
  | gaugeDec status =>
      simp only [exec] at hex
      cases hex
      exact ⟨rfl, (fun o ho => nomatch ho), _, _, rfl⟩
  | gaugeInc status =>
      simp only [exec] at hex
      cases hex
      exact ⟨rfl, (fun o ho => nomatch ho), _, _, rfl⟩
  | closeMetric =>
      simp only [exec] at hex
      cases hex
      refine ⟨rfl, fun o ho => ?_, _, _, rfl⟩
      split at ho
      · cases ho
      · rw [List.mem_singleton.mp ho]
        rfl
  | loadStatus =>
      simp only [exec] at hex
      cases hex
      refine ⟨rfl, fun o ho => ?_, _, _, rfl⟩
      rw [List.mem_singleton.mp ho]
      rfl
  | _ => cases h

/-- A step of a metric changes nothing here, whoever makes it. -/
theorem TunnelInv.metric (h : TunnelInv s) (ht : s.threads t = op :: rest)
    (hm : op.isMetric = true) (hex : exec s.shared t c op = some (s₁, ops, start)) :
    TunnelInv ⟨s₁, Pool.spawn (Function.update s.threads t (ops ++ rest)) start⟩ := by
  obtain ⟨rfl, hops, status, gauge, rfl⟩ := exec_metric hm hex
  have hcore : ∀ x, core (Function.update s.threads t (ops ++ rest) x) = core (s.threads x) := by
    intro x
    by_cases hx : x = t
    · subst hx
      rw [Function.update_self, ht, core_append, core_metric hops]
      simp [core, hm]
    · rw [Function.update_of_ne hx]
  have hmem : ∀ x, ∀ o ∈ Function.update s.threads t (ops ++ rest) x,
      o ∈ s.threads x ∨ (x = t ∧ o.isMetric = true) := by
    intro x o ho
    rcases Pool.mem_of_push ht ho with ⟨hx, ho⟩ | ho
    · exact Or.inr ⟨hx, hops o ho⟩
    · exact Or.inl ho
  refine ⟨?_, ?_, fun x hs hd o ho => ?_, ⟨h.history.justified, h.history.started,
    h.history.conns, h.history.taken⟩, fun o ho hun => ?_, fun r res => ?_, fun hdone => ?_⟩
  · exact hcore .serve ▸ h.serving
  · exact hcore .dial ▸ h.dialing
  · rcases hmem x o ho with ho | ⟨rfl, -⟩
    · exact h.outer x hs hd o ho
    · have := Op.not_metric_of_outer (h.outer x hs hd op (by rw [ht]; exact List.mem_cons_self))
      rw [hm] at this
      cases this
  · rcases hmem .dial o ho with ho | ⟨-, hm'⟩
    · exact h.fresh o ho hun
    · rw [Op.not_metric_of_unregistered hun] at hm'
      cases hm'
  · dsimp only [Pool.spawn]
    rw [hcore]
    exact h.offered r res
  · dsimp only [Pool.spawn]
    rw [hcore]
    exact h.done hdone

/-- What a step of `serve` has to keep. -/
theorem TunnelInv.serve_step (h : TunnelInv s) (hsub : s.shared.log ⊆ s₁.log)
    (hserving : Serving s₁.log (core ops)) (hhist : DialHistory s₁)
    (hreg : ∀ c r, .registered c r ∈ s₁.log → .registered c r ∈ s.shared.log)
    (hoff : ∀ r res, (s₁.chans r).offer = some res ↔ core ops = [.awaitTaken r res])
    (hdone : s₁.done = true → core ops = []) :
    TunnelInv ⟨s₁, Function.update s.threads .serve ops⟩ := by
  have hdial : Function.update s.threads Tid.serve ops .dial = s.threads .dial :=
    Function.update_of_ne (by simp) _ _
  have hserve : Function.update s.threads Tid.serve ops .serve = ops := Function.update_self ..
  refine ⟨?_, ?_, fun x hs hd o ho => ?_, hhist, fun o ho hun c r hr => ?_, fun r res => ?_,
    fun hd => ?_⟩
  · dsimp only
    rw [hserve]
    exact hserving
  · dsimp only
    rw [hdial]
    exact h.dialing.mono hsub
  · dsimp only at ho
    rw [Function.update_of_ne hs] at ho
    exact h.outer x hs hd o ho
  · dsimp only at ho
    rw [hdial] at ho
    exact h.fresh o ho hun c r (hreg c r hr)
  · dsimp only
    rw [hserve]
    exact hoff r res
  · dsimp only
    rw [hserve]
    exact hdone hd

/-- What a step of `dialContext` has to keep. -/
theorem TunnelInv.dial_step (h : TunnelInv s) (hsub : s.shared.log ⊆ s₁.log)
    (hdialing : Dialing s₁.log (core ops)) (hhist : DialHistory s₁)
    (hfresh : ∀ o ∈ ops, o.unregistered = true → ∀ c r, .registered c r ∉ s₁.log)
    (hoff : ∀ r, (s₁.chans r).offer = (s.shared.chans r).offer)
    (hdone : s₁.done = s.shared.done) :
    TunnelInv ⟨s₁, Function.update s.threads .dial ops⟩ := by
  have hdial : Function.update s.threads Tid.dial ops .dial = ops := Function.update_self ..
  have hserve : Function.update s.threads Tid.dial ops .serve = s.threads .serve :=
    Function.update_of_ne (by simp) _ _
  refine ⟨?_, ?_, fun x hs hd o ho => ?_, hhist, ?_, fun r res => ?_, fun hd => ?_⟩
  · dsimp only
    rw [hserve]
    exact h.serving.mono hsub
  · dsimp only
    rw [hdial]
    exact hdialing
  · dsimp only at ho
    rw [Function.update_of_ne hd] at ho
    exact h.outer x hs hd o ho
  · dsimp only
    rw [hdial]
    exact hfresh
  · dsimp only
    rw [hserve, hoff]
    exact h.offered r res
  · dsimp only at hd ⊢
    rw [hserve]
    exact h.done (hdone ▸ hd)

/-- What a step of anybody else has to keep. -/
theorem TunnelInv.outer_step (h : TunnelInv s) {threads : Tid → List Op}
    (hserve : threads .serve = s.threads .serve) (hdial : threads .dial = s.threads .dial)
    (houter : ∀ x, x ≠ .serve → x ≠ .dial → ∀ o ∈ threads x, o.outer = true)
    (es : List Event) (hlog : s₁.log = es ++ s.shared.log) (hes : ∀ e ∈ es, e.neutral = true)
    (hconns : s₁.conns = s.shared.conns) (hchans : s₁.chans = s.shared.chans)
    (hstarted : s₁.started = s.shared.started) (hdone : s₁.done = s.shared.done) :
    TunnelInv ⟨s₁, threads⟩ := by
  have hsub : s.shared.log ⊆ s₁.log := by
    rw [hlog]
    exact List.subset_append_right _ _
  refine ⟨?_, ?_, houter, h.history.frame es hconns hchans hstarted hlog hes, ?_, fun r res => ?_,
    fun hd => ?_⟩
  · dsimp only
    rw [hserve]
    exact h.serving.mono hsub
  · dsimp only
    rw [hdial]
    exact h.dialing.mono hsub
  · dsimp only
    rw [hdial]
    intro o ho hun c r hr
    exact h.fresh o ho hun c r (mem_of_neutral hes rfl (hlog ▸ hr))
  · dsimp only
    rw [hserve, hchans]
    exact h.offered r res
  · dsimp only at hd ⊢
    rw [hserve]
    exact h.done (hdone ▸ hd)

/-- The goroutine that withdraws a dial starts. -/
theorem TunnelInv.spawned {r : DialID} (h : TunnelInv s) :
    TunnelInv ⟨s.shared, Pool.spawn s.threads (canceller r)⟩ := by
  refine h.outer_step (by rfl) (by rfl) (fun x hs hd o ho => ?_) [] rfl (by simp)
    rfl rfl rfl rfl
  rcases Pool.mem_of_spawn ho with ho | ⟨ops, hst, ho⟩
  · exact h.outer x hs hd o ho
  · cases hst
    simp only [List.mem_cons, List.not_mem_nil, or_false] at ho
    rcases ho with rfl | rfl <;> rfl

/-- A step of `serve` that leaves the result channel alone. -/
theorem TunnelInv.serve_quiet (h : TunnelInv s) (hcore : core (s.threads .serve) = op :: core rest)
    (hop : ∀ r res, op ≠ .awaitTaken r res) (es : List Event)
    (hlog : s₁.log = es ++ s.shared.log) (hes : ∀ e ∈ es, e.neutral = true)
    (hconns : s₁.conns = s.shared.conns) (hchans : s₁.chans = s.shared.chans)
    (hstarted : s₁.started = s.shared.started) (hdone : s₁.done = s.shared.done)
    (hserving : Serving s₁.log (core (ops ++ rest)))
    (hnew : ∀ r res, core (ops ++ rest) ≠ [.awaitTaken r res]) :
    TunnelInv ⟨s₁, Function.update s.threads .serve (ops ++ rest)⟩ := by
  refine h.serve_step ?_ hserving (h.history.frame es hconns hchans hstarted hlog hes)
    (fun c r hr => mem_of_neutral hes rfl (hlog ▸ hr)) (fun r res => ?_) fun hd => ?_
  · rw [hlog]
    exact List.subset_append_right _ _
  · constructor
    · intro ho
      rw [hchans] at ho
      have := (h.offered r res).mp ho
      rw [hcore] at this
      injection this with this
      exact absurd this (hop r res)
    · exact fun hc => absurd hc (hnew r res)
  · rw [hdone] at hd
    rw [h.done hd] at hcore
    cases hcore

/-- What `serve` does with a packet. -/
theorem serve_cases {pkt : Packet} (h : serve pkt = some ops) :
    (ops = [] ∧ pkt.reportsConn = none ∧ ∀ c, pkt.belongsTo = some c → c = 0) ∨
    (∃ r res, ops = [.pendingGet r res] ∧ pkt.belongsTo = none ∧
      (res.err = none → pkt.reportsConn = some (r, res.connid)) ∧
      ∀ x, pkt.reportsConn = some x → x.1 = r ∧ res = ⟨none, x.2⟩) ∨
    ∃ c k, ops = [.connsGet c k] ∧ k.pkt = pkt ∧ pkt.reportsConn = none ∧
      pkt.belongsTo = some c := by
  unfold serve at h
  split at h
  · next htype =>
      obtain ⟨resp, hpay, rfl⟩ := Option.map_eq_some_iff.mp h
      rw [Packet.getDialResponse_iff] at hpay
      refine Or.inr (Or.inl ⟨_, _, rfl, by simp [Packet.belongsTo, htype], ?_⟩)
      by_cases he : resp.error = ""
      · simp [Packet.reportsConn, htype, hpay, he]
      · simp [Packet.reportsConn, htype, hpay, he]
  · next htype =>
      obtain ⟨resp, hpay, rfl⟩ := Option.map_eq_some_iff.mp h
      refine Or.inr (Or.inl ⟨_, _, rfl, by simp [Packet.belongsTo, htype], ?_⟩)
      simp [Packet.reportsConn, htype]
  · next htype =>
      obtain ⟨resp, hpay, heq⟩ := Option.map_eq_some_iff.mp h
      rw [Packet.getData_iff] at hpay
      have hrep : pkt.reportsConn = none := by simp [Packet.reportsConn, htype]
      have hbel : pkt.belongsTo = some resp.connectID := by simp [Packet.belongsTo, htype, hpay]
      split at heq
      · next hzero =>
          refine Or.inl ⟨heq.symm, hrep, fun c hc => ?_⟩
          rw [hbel] at hc
          cases hc
          exact hzero
      · exact Or.inr (Or.inr ⟨_, _, heq.symm, rfl, hrep, hbel⟩)
  · next htype =>
      obtain ⟨resp, hpay, rfl⟩ := Option.map_eq_some_iff.mp h
      rw [Packet.getCloseResponse_iff] at hpay
      exact Or.inr (Or.inr ⟨_, _, rfl, rfl, by simp [Packet.reportsConn, htype],
        by simp [Packet.belongsTo, htype, hpay]⟩)
  · next h1 _ h3 h4 =>
      cases h
      refine Or.inl ⟨rfl, ?_, fun c hc => ?_⟩
      · unfold Packet.reportsConn
        split
        · next htype _ => exact absurd htype h1
        · rfl
      · unfold Packet.belongsTo at hc
        split at hc
        · next htype _ => exact absurd htype h3
        · next htype _ => exact absurd htype h4
        · cases hc

/-- A packet with a nil payload is not one of a connection. -/
theorem serve_none {pkt : Packet} (h : serve pkt = none) :
    pkt.reportsConn = none ∧ pkt.belongsTo = none := by
  constructor
  · unfold Packet.reportsConn
    split
    · next htype hpay =>
        simp [serve, htype, Packet.getDialResponse, hpay] at h
    · rfl
  · unfold Packet.belongsTo
    split
    · next htype hpay => simp [serve, htype, Packet.getData, hpay] at h
    · next htype hpay => simp [serve, htype, Packet.getCloseResponse, hpay] at h
    · rfl

theorem core_serveExit : core serveExit = [.closeAll, .closeDone] := rfl

/-- The result channels are empty unless `serve` waits at one. -/
theorem TunnelInv.no_offer (h : TunnelInv s) {tail : List Op}
    (hcore : core (s.threads .serve) = op :: tail) (hop : ∀ r res, op ≠ .awaitTaken r res)
    (r : DialID) : (s.shared.chans r).offer = none := by
  cases ho : (s.shared.chans r).offer with
  | none => rfl
  | some res =>
      have := (h.offered r res).mp ho
      rw [hcore] at this
      injection this with this
      exact absurd this (hop r res)

theorem TunnelInv.running (h : TunnelInv s) {tail : List Op}
    (hcore : core (s.threads .serve) = op :: tail) : s.shared.done = false := by
  cases hd : s.shared.done with
  | false => rfl
  | true =>
      rw [h.done hd] at hcore
      cases hcore

theorem TunnelInv.exec_dispatch (h : TunnelInv s) {pkt : Packet}
    (hpkt : .received pkt ∈ s.shared.log)
    (hcore : core (s.threads .serve) = .dispatch pkt :: core rest)
    (hrest : core rest = [])
    (hex : exec s.shared .serve c (.dispatch pkt) = some (s₁, ops, start)) :
    TunnelInv ⟨s₁, Pool.spawn (Function.update s.threads .serve (ops ++ rest)) start⟩ := by
  simp only [Konnectivity.Client.exec] at hex
  split at hex
  · cases hex
    refine h.serve_quiet hcore (by simp) [] rfl (by simp) rfl rfl rfl rfl ?_ ?_
    · rw [core_append, hrest]
      exact .closeAll
    · rw [core_append, hrest]
      simp [core_serveExit]
  · split at hex
    · cases hex
      refine h.serve_quiet hcore (by simp) [] rfl (by simp) rfl rfl rfl rfl ?_ ?_
      · rw [core_append, hrest]
        exact .idle
      · rw [core_append, hrest]
        simp
    · next ops' hops =>
        cases hex
        refine h.serve_quiet hcore (by simp) [] rfl (by simp) rfl rfl rfl rfl ?_ ?_
        · rw [core_append, hrest]
          rcases serve_cases hops with ⟨rfl, -⟩ | ⟨r, res, rfl, -, hrep, -⟩ |
            ⟨cid, k, rfl, hk, -, hb⟩
          · exact .idle
          · exact .pendingGet fun he => ⟨pkt, hpkt, hrep he⟩
          · exact .connsGet (hk ▸ hb)
        · rw [core_append, hrest]
          rcases serve_cases hops with ⟨rfl, -⟩ | ⟨r, res, rfl, -⟩ | ⟨cid, k, rfl, -⟩ <;>
            simp [core, Op.isMetric]

theorem TunnelInv.exec_pendingGet (h : TunnelInv s) {r : DialID} {res : DialResult}
    (hrep : res.err = none → Reported s.shared.log r res.connid)
    (hcore : core (s.threads .serve) = .pendingGet r res :: core rest)
    (hrest : core rest = [])
    (hex : exec s.shared .serve c (.pendingGet r res) = some (s₁, ops, start)) :
    TunnelInv ⟨s₁, Pool.spawn (Function.update s.threads .serve (ops ++ rest)) start⟩ := by
  simp only [Konnectivity.Client.exec] at hex
  split at hex
  · cases hex
    refine h.serve_quiet hcore (by simp) [] rfl (by simp) rfl rfl rfl rfl ?_ ?_
    · rw [core_append, hrest]
      exact .closeAll
    · rw [core_append, hrest]
      simp [core_serveExit]
  · cases hex
    have hoffer : core ((if res.err.isNone then [Op.updateMetric .ok] else []) ++
        [.offerResult r res]) = [.offerResult r res] := by
      split <;> rfl
    refine h.serve_quiet hcore (by simp) [] rfl (by simp) rfl rfl rfl rfl ?_ ?_
    · rw [core_append, hrest, hoffer]
      exact .offerResult hrep
    · rw [core_append, hrest, hoffer]
      simp

theorem TunnelInv.exec_offerResult (h : TunnelInv s) {r : DialID} {res : DialResult}
    (hrep : res.err = none → Reported s.shared.log r res.connid)
    (hcore : core (s.threads .serve) = .offerResult r res :: core rest)
    (hrest : core rest = [])
    (hex : exec s.shared .serve c (.offerResult r res) = some (s₁, ops, start)) :
    TunnelInv ⟨s₁, Pool.spawn (Function.update s.threads .serve (ops ++ rest)) start⟩ := by
  simp only [Konnectivity.Client.exec] at hex
  cases hex
  refine h.serve_step (List.Subset.refl _) ?_ ?_ (fun c r hr => hr) (fun r' res' => ?_) ?_
  · rw [core_append, hrest]
    exact .awaitTaken hrep
  · refine h.history.setChans fun htaken => ?_
    obtain ⟨res', ho, -⟩ := h.history.taken r htaken
    rw [h.no_offer hcore (by simp) r] at ho
    cases ho
  · rw [core_append, hrest]
    by_cases hr : r' = r
    · subst hr
      simp [core, Op.isMetric]
    · rw [setChans_other hr, h.no_offer hcore (by simp) r']
      simp [core, Op.isMetric, Ne.symm hr]
  · intro hd
    rw [TunnelState.setChans_done, h.running hcore] at hd
    cases hd

/-- Whichever case of the `select` is taken, the offer goes. -/
theorem TunnelInv.exec_awaitTaken (h : TunnelInv s) {r : DialID} {res : DialResult}
    (hcore : core (s.threads .serve) = .awaitTaken r res :: core rest)
    (hrest : core rest = [])
    (hex : exec s.shared .serve c (.awaitTaken r res) = some (s₁, ops, start)) :
    TunnelInv ⟨s₁, Pool.spawn (Function.update s.threads .serve (ops ++ rest)) start⟩ := by
  have hoffer : (s.shared.chans r).offer = some res := by
    rw [h.offered, hcore, hrest]
  have hnone : ∀ r' res', (s.shared.chans r').offer = some res' → r' = r := by
    intro r' res' ho
    rw [h.offered, hcore, hrest] at ho
    injection ho with ho
    injection ho with ho
    exact ho.symm
  have hleave : ∀ {x : DialChans} {l : List Op}, x.offer = none → x.taken = false →
      Serving s.shared.log (core (l ++ rest)) →
      (∀ r' res', core (l ++ rest) ≠ [.awaitTaken r' res']) →
      TunnelInv ⟨s.shared.setChans r x, Function.update s.threads .serve (l ++ rest)⟩ := by
    intro x l hxo hxt hl hne
    refine h.serve_step (List.Subset.refl _) hl ?_ (fun c r hr => hr) (fun r' res' => ?_) ?_
    · exact h.history.setChans fun htaken => by rw [hxt] at htaken; cases htaken
    · refine ⟨fun ho => ?_, fun hc => absurd hc (hne r' res')⟩
      by_cases hr : r' = r
      · subst hr
        rw [setChans_self, hxo] at ho
        cases ho
      · rw [setChans_other hr] at ho
        exact absurd (hnone r' res' ho) hr
    · intro hd
      rw [TunnelState.setChans_done, h.running hcore] at hd
      cases hd
  simp only [Konnectivity.Client.exec] at hex
  obtain ⟨⟨s', ops'⟩, haw, heq⟩ := Option.map_eq_some_iff.mp hex
  cases heq
  cases hcase : c.case with
  | proceed =>
      simp only [hcase, TunnelState.awaitTaken] at haw
      split at haw <;> cases haw
      refine hleave rfl rfl ?_ ?_
      · rw [core_append, hrest]
        split
        · exact .closeAll
        · exact .idle
      · rw [core_append, hrest]
        split <;> simp [core_serveExit]
  | cancelled =>
      simp only [hcase, TunnelState.awaitTaken] at haw
      split at haw <;> cases haw
      next hc =>
        simp only [Bool.and_eq_true, Bool.not_eq_true'] at hc
        refine hleave rfl hc.2 ?_ ?_
        · rw [core_append, hrest]
          exact .closeAll
        · rw [core_append, hrest]
          simp [core_serveExit]
  | ctxDone =>
      simp only [hcase, TunnelState.awaitTaken] at haw
      split at haw <;> cases haw
      next hc =>
        simp only [Bool.and_eq_true, Bool.not_eq_true'] at hc
        refine hleave rfl hc.2 ?_ ?_
        · rw [core_append, hrest]
          exact .closeAll
        · rw [core_append, hrest]
          simp [core_serveExit]
  | timeout => simp [hcase, TunnelState.awaitTaken] at haw
  | tunnelDone => simp [hcase, TunnelState.awaitTaken] at haw

theorem TunnelInv.exec_connsGet (h : TunnelInv s) {cid : ConnectID} {k : AfterGet}
    (hb : k.pkt.belongsTo = some cid)
    (hcore : core (s.threads .serve) = .connsGet cid k :: core rest)
    (hrest : core rest = [])
    (hex : exec s.shared .serve c (.connsGet cid k) = some (s₁, ops, start)) :
    TunnelInv ⟨s₁, Pool.spawn (Function.update s.threads .serve (ops ++ rest)) start⟩ := by
  simp only [Konnectivity.Client.exec] at hex
  cases hex
  refine h.serve_quiet hcore (by simp) [] rfl (by simp) rfl rfl rfl rfl ?_ ?_
  · rw [core_append, hrest]
    cases k with
    | data pkt payload =>
        cases hl : s.shared.conns.lookup cid with
        | none => exact .send
        | some r => exact .sendReadCh (h.history.conns cid r hl) hb
    | closeRsp pkt error =>
        cases hl : s.shared.conns.lookup cid with
        | none => exact .idle
        | some r => exact .closeReadCh (h.history.conns cid r hl) hb
  · rw [core_append, hrest]
    cases k <;> cases s.shared.conns.lookup cid <;>
      simp [AfterGet.next, core, Op.isMetric, serveExit]

theorem TunnelInv.exec_sendReadCh (h : TunnelInv s) {r : DialID} {pkt : Packet} {data : Bytes}
    {cid : ConnectID} (hr : .registered cid r ∈ s.shared.log) (hb : pkt.belongsTo = some cid)
    (hcore : core (s.threads .serve) = .sendReadCh r pkt data :: core rest)
    (hrest : core rest = [])
    (hex : exec s.shared .serve c (.sendReadCh r pkt data) = some (s₁, ops, start)) :
    TunnelInv ⟨s₁, Pool.spawn (Function.update s.threads .serve (ops ++ rest)) start⟩ := by
  simp only [Konnectivity.Client.exec] at hex
  obtain ⟨⟨s', ops'⟩, hsend, heq⟩ := Option.map_eq_some_iff.mp hex
  cases heq
  cases hcase : c.case with
  | proceed =>
      simp only [hcase, TunnelState.sendReadCh] at hsend
      split at hsend
      · cases hsend
      · cases hsend
        refine h.serve_quiet hcore (by simp) [] rfl (by simp) rfl rfl rfl rfl ?_ ?_
        · rw [core_append, hrest]
          exact .idle
        · rw [core_append, hrest]
          simp
      · cases hsend
        have hsub : s.shared.log ⊆ .delivered r pkt :: s.shared.log :=
          List.subset_cons_self _ _
        refine h.serve_step hsub ?_ ?_ (fun c r hreg => ?_) (fun r' res' => ?_) ?_
        · rw [core_append, hrest]
          exact .idle
        · exact h.history.extend (.delivered r pkt) ⟨cid, hr, hb⟩ (by simp) rfl rfl rfl rfl
        · simpa using hreg
        · rw [core_append, hrest, TunnelState.record_chans, TunnelState.setConn_chans,
            h.no_offer hcore (by simp)]
          simp
        · intro hd
          rw [TunnelState.record_done, TunnelState.setConn_done, h.running hcore] at hd
          cases hd
  | timeout =>
      simp only [hcase, TunnelState.sendReadCh] at hsend
      cases hsend
      refine h.serve_quiet hcore (by simp) [] rfl (by simp) rfl rfl rfl rfl ?_ ?_
      · rw [core_append, hrest]
        exact .closeAll
      · rw [core_append, hrest]
        simp [core_serveExit]
  | ctxDone =>
      simp only [hcase, TunnelState.sendReadCh] at hsend
      split at hsend <;> cases hsend
      refine h.serve_quiet hcore (by simp) [] rfl (by simp) rfl rfl rfl rfl ?_ ?_
      · rw [core_append, hrest]
        exact .idle
      · rw [core_append, hrest]
        simp
  | cancelled => simp [hcase, TunnelState.sendReadCh] at hsend
  | tunnelDone => simp [hcase, TunnelState.sendReadCh] at hsend

theorem TunnelInv.exec_send (h : TunnelInv s) {cid : ConnectID}
    (hcore : core (s.threads .serve) = .send (.newCloseRequest cid) .done :: core rest)
    (hrest : core rest = [])
    (hex : exec s.shared .serve c (.send (.newCloseRequest cid) .done) = some (s₁, ops, start)) :
    TunnelInv ⟨s₁, Pool.spawn (Function.update s.threads .serve (ops ++ rest)) start⟩ := by
  simp only [Konnectivity.Client.exec, AfterSend.next] at hex
  cases hex
  refine h.serve_quiet hcore (by simp) [_] rfl (by simp [Event.neutral]) rfl rfl rfl rfl ?_ ?_
  · rw [core_append, hrest]
    exact .idle
  · rw [core_append, hrest]
    simp

theorem TunnelInv.exec_closeReadCh (h : TunnelInv s) {r : DialID} {pkt : Packet} {error : String}
    {cid : ConnectID} (hr : .registered cid r ∈ s.shared.log) (hb : pkt.belongsTo = some cid)
    (hcore : core (s.threads .serve) = .closeReadCh r :: core rest)
    (hrest : core rest = [.sendCloseCh r pkt error, .closeCloseCh r, .connsRemove cid, .closeAll,
      .closeDone])
    (hex : exec s.shared .serve c (.closeReadCh r) = some (s₁, ops, start)) :
    TunnelInv ⟨s₁, Pool.spawn (Function.update s.threads .serve (ops ++ rest)) start⟩ := by
  simp only [Konnectivity.Client.exec] at hex
  cases hex
  obtain ⟨h1, h2, h3, h4, h5⟩ := closeReadCh_frame s.shared r
  refine h.serve_quiet hcore (by simp) [_] h5 (by simp [Event.neutral]) h1 h2 h3 h4 ?_ ?_
  · rw [core_append, hrest, h5]
    exact .sendCloseCh (List.mem_cons_of_mem _ hr) hb
  · rw [core_append, hrest]
    simp

theorem TunnelInv.exec_sendCloseCh (h : TunnelInv s) {r : DialID} {pkt : Packet} {error : String}
    {cid : ConnectID} (hr : .registered cid r ∈ s.shared.log) (hb : pkt.belongsTo = some cid)
    (hcore : core (s.threads .serve) = .sendCloseCh r pkt error :: core rest)
    (hrest : core rest = [.closeCloseCh r, .connsRemove cid, .closeAll, .closeDone])
    (hex : exec s.shared .serve c (.sendCloseCh r pkt error) = some (s₁, ops, start)) :
    TunnelInv ⟨s₁, Pool.spawn (Function.update s.threads .serve (ops ++ rest)) start⟩ := by
  simp only [Konnectivity.Client.exec] at hex
  split at hex
  · cases hex
  · cases hex
    refine h.serve_quiet hcore (by simp) [] rfl (by simp) rfl rfl rfl rfl ?_ ?_
    · rw [core_append, hrest]
      exact .closeCloseCh hr
    · rw [core_append, hrest]
      simp
  · cases hex
    have hsub : s.shared.log ⊆ .delivered r pkt :: s.shared.log :=
      List.subset_cons_self _ _
    refine h.serve_step hsub ?_ ?_ (fun c r hreg => ?_) (fun r' res' => ?_) ?_
    · rw [core_append, hrest]
      exact .closeCloseCh (hsub hr)
    · exact h.history.extend (.delivered r pkt) ⟨cid, hr, hb⟩ (by simp) rfl rfl rfl rfl
    · simpa using hreg
    · rw [core_append, hrest, TunnelState.record_chans, TunnelState.setConn_chans,
        h.no_offer hcore (by simp)]
      simp
    · intro hd
      rw [TunnelState.record_done, TunnelState.setConn_done, h.running hcore] at hd
      cases hd

theorem TunnelInv.exec_closeCloseCh (h : TunnelInv s) {r : DialID} {cid : ConnectID}
    (hr : .registered cid r ∈ s.shared.log)
    (hcore : core (s.threads .serve) = .closeCloseCh r :: core rest)
    (hrest : core rest = [.connsRemove cid, .closeAll, .closeDone])
    (hex : exec s.shared .serve c (.closeCloseCh r) = some (s₁, ops, start)) :
    TunnelInv ⟨s₁, Pool.spawn (Function.update s.threads .serve (ops ++ rest)) start⟩ := by
  simp only [Konnectivity.Client.exec] at hex
  split at hex <;> cases hex
  all_goals
    refine h.serve_quiet hcore (by simp) [] rfl (by simp) rfl rfl rfl rfl ?_ ?_
    · rw [core_append, hrest]
      exact .connsRemove hr
    · rw [core_append, hrest]
      simp

theorem TunnelInv.exec_connsRemove (h : TunnelInv s) {cid : ConnectID}
    (hcore : core (s.threads .serve) = .connsRemove cid :: core rest)
    (hrest : core rest = [.closeAll, .closeDone])
    (hex : exec s.shared .serve c (.connsRemove cid) = some (s₁, ops, start)) :
    TunnelInv ⟨s₁, Pool.spawn (Function.update s.threads .serve (ops ++ rest)) start⟩ := by
  simp only [Konnectivity.Client.exec] at hex
  cases hex
  refine h.serve_step (List.Subset.refl _) ?_ ?_ (fun c r hreg => hreg) (fun r' res' => ?_) ?_
  · rw [core_append, hrest]
    exact .closeAll
  · refine { h.history with conns := fun c' r' hl => h.history.conns c' r' ?_ }
    rw [GoMap.lookup_erase_if] at hl
    split at hl
    · cases hl
    · exact hl
  · rw [core_append, hrest]
    dsimp only
    rw [h.no_offer hcore (by simp)]
    simp
  · intro hd
    rw [h.running hcore] at hd
    cases hd

theorem TunnelInv.exec_closeAll (h : TunnelInv s)
    (hcore : core (s.threads .serve) = .closeAll :: core rest)
    (hrest : core rest = [.closeDone])
    (hex : exec s.shared .serve c .closeAll = some (s₁, ops, start)) :
    TunnelInv ⟨s₁, Pool.spawn (Function.update s.threads .serve (ops ++ rest)) start⟩ := by
  simp only [Konnectivity.Client.exec] at hex
  cases hex
  obtain ⟨h1, h2, h3, h4, h5⟩ := closeAll_frame s.shared.conns.values s.shared
  refine h.serve_quiet hcore (by simp) _ h5 ?_ h1 h2 h3 h4 ?_ ?_
  · intro e he
    rw [List.mem_reverse] at he
    obtain ⟨r, -, rfl⟩ := List.mem_map.mp he
    rfl
  · rw [core_append, hrest]
    exact .closeDone
  · rw [core_append, hrest]
    simp

theorem TunnelInv.exec_closeDone (h : TunnelInv s)
    (hcore : core (s.threads .serve) = .closeDone :: core rest)
    (hrest : core rest = [])
    (hex : exec s.shared .serve c .closeDone = some (s₁, ops, start)) :
    TunnelInv ⟨s₁, Pool.spawn (Function.update s.threads .serve (ops ++ rest)) start⟩ := by
  simp only [Konnectivity.Client.exec] at hex
  cases hex
  refine h.serve_step (List.Subset.refl _) ?_ ?_ (fun c r hreg => hreg) (fun r' res' => ?_) ?_
  · rw [core_append, hrest]
    exact .idle
  · exact { h.history with }
  · rw [core_append, hrest]
    dsimp only
    rw [h.no_offer hcore (by simp)]
    simp
  · intro _
    rw [core_append, hrest]
    rfl

theorem TunnelInv.exec_serve (h : TunnelInv s) (ht : s.threads .serve = op :: rest)
    (hm : op.isMetric = false) (hex : exec s.shared .serve c op = some (s₁, ops, start)) :
    TunnelInv ⟨s₁, Pool.spawn (Function.update s.threads .serve (ops ++ rest)) start⟩ := by
  have hcore : core (s.threads .serve) = op :: core rest := by
    rw [ht, core_cons hm]
  have hserving := h.serving
  rw [hcore] at hserving
  generalize hrest : core rest = tail at hserving
  cases hserving with
  | @dispatch pkt hpkt => exact h.exec_dispatch hpkt hcore hrest hex
  | @pendingGet r res hrep => exact h.exec_pendingGet hrep hcore hrest hex
  | @offerResult r res hrep => exact h.exec_offerResult hrep hcore hrest hex
  | awaitTaken => exact h.exec_awaitTaken hcore hrest hex
  | @connsGet cid k hb => exact h.exec_connsGet hb hcore hrest hex
  | @sendReadCh r pkt data cid hr hb => exact h.exec_sendReadCh hr hb hcore hrest hex
  | send => exact h.exec_send hcore hrest hex
  | @closeReadCh r pkt error cid hr hb => exact h.exec_closeReadCh hr hb hcore hrest hex
  | @sendCloseCh r pkt error cid hr hb => exact h.exec_sendCloseCh hr hb hcore hrest hex
  | @closeCloseCh r cid hr => exact h.exec_closeCloseCh hr hcore hrest hex
  | connsRemove => exact h.exec_connsRemove hcore hrest hex
  | closeAll => exact h.exec_closeAll hcore hrest hex
  | closeDone => exact h.exec_closeDone hcore hrest hex

theorem TunnelInv.exec_checkDone (h : TunnelInv s) {r : DialID} {protocol address : String}
    (hd : .dialing r ∈ s.shared.log)
    (hfree : ∀ c r, .registered c r ∉ s.shared.log)
    (hrest : core rest = [])
    (hex : exec s.shared .dial c (.checkDone r protocol address) = some (s₁, ops, start)) :
    TunnelInv ⟨s₁, Pool.spawn (Function.update s.threads .dial (ops ++ rest)) start⟩ := by
  simp only [Konnectivity.Client.exec] at hex
  have hrefuse : ∀ {e : DialError}, TunnelInv ⟨s.shared, Function.update s.threads .dial
      ([.dialReturn r (.failed e)] ++ rest)⟩ := by
    intro e
    refine h.dial_step (List.Subset.refl _) ?_ h.history (fun o ho hun => ?_)
      (fun _ => rfl) rfl
    · rw [core_append, hrest]
      exact .dialReturn fun c hc => nomatch hc
    · exact hfree
  split at hex
  · cases hex
    exact hrefuse
  · split at hex
    · cases hex
      exact hrefuse
    · cases hex
      refine h.dial_step (List.Subset.refl _) ?_ h.history (fun _ _ _ => hfree)
        (fun _ => rfl) rfl
      rw [core_append, hrest]
      exact .pendingAdd hd

theorem TunnelInv.exec_dialReq (h : TunnelInv s) {r : DialID} {pkt : Packet}
    (hd : .dialing r ∈ s.shared.log)
    (hfree : ∀ c r, .registered c r ∉ s.shared.log)
    (hrest : core rest = [])
    (hex : exec s.shared .dial c (.send pkt (.dialReq r)) = some (s₁, ops, start)) :
    TunnelInv ⟨s₁, Pool.spawn (Function.update s.threads .dial (ops ++ rest)) start⟩ := by
  have hhist : ∀ ok, DialHistory (s.shared.record (.sent .dial pkt ok)) := fun ok =>
    h.history.frame [_] rfl rfl rfl rfl (by simp [Event.neutral])
  have hnot : ∀ ok c r, .registered c r ∉ (s.shared.record (.sent .dial pkt ok)).log :=
    fun ok c r hr => hfree c r (by simpa using hr)
  cases hok : c.ok with
  | true =>
      simp only [Konnectivity.Client.exec, AfterSend.next, hok] at hex
      cases hex
      refine h.dial_step (List.subset_cons_self _ _) ?_ (hhist _) (fun o ho hun => hnot _)
        (fun _ => rfl) rfl
      rw [core_append, hrest]
      exact .awaitResult (List.mem_cons_of_mem _ hd)
  | false =>
      simp only [Konnectivity.Client.exec, AfterSend.next, hok] at hex
      cases hex
      refine h.dial_step (List.subset_cons_self _ _) ?_ (hhist _) (fun o ho hun => hnot _)
        (fun _ => rfl) rfl
      rw [core_append, hrest]
      exact .pendingRemove fun c hc => nomatch hc

theorem TunnelInv.exec_awaitResult (h : TunnelInv s) {r : DialID}
    (hd : .dialing r ∈ s.shared.log)
    (hfree : ∀ c r, .registered c r ∉ s.shared.log)
    (hrest : core rest = [])
    (hex : exec s.shared .dial c (.awaitResult r) = some (s₁, ops, start)) :
    TunnelInv ⟨s₁, Pool.spawn (Function.update s.threads .dial (ops ++ rest)) start⟩ := by
  have hgive : ∀ {e : DialError}, TunnelInv ⟨s.shared, Function.update s.threads .dial
      (dialExit r (.failed e) ++ rest)⟩ := by
    intro e
    refine h.dial_step (List.Subset.refl _) ?_ h.history (fun _ _ _ => hfree)
      (fun _ => rfl) rfl
    rw [core_append, hrest]
    exact .pendingRemove fun c hc => nomatch hc
  simp only [Konnectivity.Client.exec] at hex
  cases hcase : c.case with
  | proceed =>
      simp only [hcase, TunnelState.awaitResult] at hex
      split at hex
      · next res hoffer htaken =>
          cases hex
          have hserve := (h.offered r res).mp hoffer
          have hserving := h.serving
          rw [hserve] at hserving
          cases hserving with
          | awaitTaken hrep =>
              refine h.dial_step (List.subset_cons_self _ _) ?_ ?_ (fun o ho hun c r hr => ?_)
                (fun r' => ?_) rfl
              · rw [core_append, hrest]
                cases herr : res.err with
                | some e =>
                    simp only [DialResult.next, herr]
                    exact .pendingRemove fun c hc => nomatch hc
                | none =>
                    simp only [DialResult.next, herr]
                    obtain ⟨err, cid⟩ := res
                    cases herr
                    exact .connsAdd List.mem_cons_self
              · have hrec : DialHistory (s.shared.record (.handed r res)) :=
                  h.history.extend (.handed r res) ⟨hd, hrep⟩ (by simp) rfl rfl rfl rfl
                exact hrec.setChans fun _ => ⟨res, hoffer, List.mem_cons_self⟩
              · exact hfree c r (by simpa using hr)
              · by_cases hr : r' = r
                · subst hr
                  rw [TunnelState.record_chans, setChans_self]
                · rw [TunnelState.record_chans, setChans_other hr]
      · cases hex
  | timeout =>
      simp only [hcase, TunnelState.awaitResult] at hex
      cases hex
      exact hgive.spawned
  | cancelled =>
      simp only [hcase, TunnelState.awaitResult] at hex
      cases hex
      exact hgive.spawned
  | tunnelDone =>
      simp only [hcase, TunnelState.awaitResult] at hex
      split at hex <;> cases hex
      exact hgive
  | ctxDone => simp [hcase, TunnelState.awaitResult] at hex

theorem TunnelInv.exec_connsAdd (h : TunnelInv s) {r : DialID} {cid : ConnectID}
    (hh : .handed r ⟨none, cid⟩ ∈ s.shared.log)
    (hfree : ∀ c r, .registered c r ∉ s.shared.log)
    (hrest : core rest = dialExit r (.conn cid))
    (hex : exec s.shared .dial c (.connsAdd cid r) = some (s₁, ops, start)) :
    TunnelInv ⟨s₁, Pool.spawn (Function.update s.threads .dial (ops ++ rest)) start⟩ := by
  have hexit : ∀ o ∈ dialExit r (.conn cid), o.unregistered = false := by
    intro o ho
    simp only [dialExit, List.mem_cons, List.not_mem_nil, or_false] at ho
    rcases ho with rfl | rfl | rfl <;> rfl
  simp only [Konnectivity.Client.exec] at hex
  cases hex
  refine h.dial_step (List.subset_cons_self _ _) ?_ ?_ (fun o ho hun => ?_) (fun _ => rfl) rfl
  · rw [core_append, hrest]
    refine .pendingRemove fun c hc => ?_
    cases hc
    exact List.mem_cons_self
  · have hrec : DialHistory (s.shared.record (.registered cid r)) :=
      h.history.extend (.registered cid r) ⟨hh, hfree⟩ (by simp) rfl rfl rfl rfl
    refine ⟨hrec.justified, hrec.started, fun c' r' hl => ?_, hrec.taken⟩
    change (s.shared.conns.insert cid r).lookup c' = some r' at hl
    rw [GoMap.lookup_insert_if] at hl
    split at hl
    · next hc =>
        cases hl
        rw [hc]
        exact List.mem_cons_self
    · exact hrec.conns c' r' hl
  · -- What is left is the way out.
    have hmem : o ∈ core rest := mem_core.mpr ⟨ho, Op.not_metric_of_unregistered hun⟩
    rw [hrest] at hmem
    rw [hexit o hmem] at hun
    cases hun

theorem TunnelInv.exec_closeCancelCh (h : TunnelInv s) {r : DialID} {ret : DialReturn}
    (hret : ∀ c, ret = .conn c → .registered c r ∈ s.shared.log)
    (hlater : ∀ o ∈ rest, o.unregistered = true → ∀ c r, .registered c r ∉ s.shared.log)
    (hrest : core rest = [.dialReturn r ret])
    (hex : exec s.shared .dial c (.closeCancelCh r) = some (s₁, ops, start)) :
    TunnelInv ⟨s₁, Pool.spawn (Function.update s.threads .dial (ops ++ rest)) start⟩ := by
  simp only [Konnectivity.Client.exec] at hex
  cases hex
  refine h.dial_step (List.Subset.refl _) ?_ (h.history.setChans (h.history.taken r)) hlater
    (fun r' => ?_) rfl
  · rw [core_append, hrest]
    exact .dialReturn hret
  · by_cases hr : r' = r
    · subst hr
      rw [setChans_self]
    · rw [setChans_other hr]

theorem TunnelInv.exec_dialReturn (h : TunnelInv s) {r : DialID} {ret : DialReturn}
    (hret : ∀ c, ret = .conn c → .registered c r ∈ s.shared.log)
    (hlater : ∀ o ∈ rest, o.unregistered = true → ∀ c r, .registered c r ∉ s.shared.log)
    (hrest : core rest = [])
    (hex : exec s.shared .dial c (.dialReturn r ret) = some (s₁, ops, start)) :
    TunnelInv ⟨s₁, Pool.spawn (Function.update s.threads .dial (ops ++ rest)) start⟩ := by
  have hidle : ∀ {s' : TunnelState}, s'.log = .dialReturned r ret :: s.shared.log →
      s'.conns = s.shared.conns → s'.chans = s.shared.chans →
      s'.started = s.shared.started → s'.done = s.shared.done →
      TunnelInv ⟨s', Function.update s.threads .dial ([] ++ rest)⟩ := by
    intro s' hlog hconns hchans hstarted hdone
    have hjust : (Event.dialReturned r ret).Justified s.shared.log := by
      cases ret with
      | conn cid => exact hret cid rfl
      | failed err => trivial
    refine h.dial_step ?_ ?_ (h.history.extend _ hjust (by simp) hconns hchans hstarted hlog)
      (fun o ho hun c r hr => ?_) (fun _ => by rw [hchans]) hdone
    · rw [hlog]
      exact List.subset_cons_self _ _
    · rw [List.nil_append, hrest]
      exact .idle
    · rw [hlog] at hr
      exact hlater o ho hun c r (by simpa using hr)
  simp only [Konnectivity.Client.exec] at hex
  split at hex <;> cases hex <;> exact hidle rfl rfl rfl rfl rfl

theorem TunnelInv.exec_dial (h : TunnelInv s) (ht : s.threads .dial = op :: rest)
    (hm : op.isMetric = false) (hex : exec s.shared .dial c op = some (s₁, ops, start)) :
    TunnelInv ⟨s₁, Pool.spawn (Function.update s.threads .dial (ops ++ rest)) start⟩ := by
  have hdialing := h.dialing
  rw [ht, core_cons hm] at hdialing
  generalize hrest : core rest = tail at hdialing
  have hfree : op.unregistered = true → ∀ c r, .registered c r ∉ s.shared.log :=
    h.fresh op (by rw [ht]; exact List.mem_cons_self)
  have hlater : ∀ o ∈ rest, o.unregistered = true → ∀ c r, .registered c r ∉ s.shared.log :=
    fun o ho => h.fresh o (by rw [ht]; exact List.mem_cons_of_mem _ ho)
  cases hdialing with
  | @checkDone r protocol address hd => exact h.exec_checkDone hd (hfree rfl) hrest hex
  | @pendingAdd r pkt hd =>
      simp only [Konnectivity.Client.exec] at hex
      cases hex
      refine h.dial_step (List.Subset.refl _) ?_ { h.history with } (fun o ho hun => hfree rfl)
        (fun _ => rfl) rfl
      rw [core_append, hrest]
      exact .send hd
  | @send r pkt hd => exact h.exec_dialReq hd (hfree rfl) hrest hex
  | @awaitResult r hd => exact h.exec_awaitResult hd (hfree rfl) hrest hex
  | @connsAdd r cid hh => exact h.exec_connsAdd hh (hfree rfl) hrest hex
  | @pendingRemove r ret hret =>
      simp only [Konnectivity.Client.exec] at hex
      cases hex
      refine h.dial_step (List.Subset.refl _) ?_ { h.history with } hlater (fun _ => rfl) rfl
      rw [core_append, hrest]
      exact .closeCancelCh hret
  | @closeCancelCh r ret hret => exact h.exec_closeCancelCh hret hlater hrest hex
  | @dialReturn r ret hret => exact h.exec_dialReturn hret hlater hrest hex

/-- What the users of the tunnel do. -/
theorem exec_outer {s : TunnelState} (h : op.outer = true)
    (hex : exec s t c op = some (s₁, ops, start)) :
    (∀ o ∈ ops, o.outer = true) ∧
      (∀ x ops', start = some (x, ops') → x = .awaiter ∧ ∀ o ∈ ops', o.outer = true) ∧
      ∃ es, s₁.log = es ++ s.log ∧ (∀ e ∈ es, ∃ pkt ok, e = .sent t pkt ok) ∧
        s₁.conns = s.conns ∧ s₁.chans = s.chans ∧ s₁.started = s.started ∧ s₁.done = s.done ∧
        ∀ r, (s₁.conn r).readCh = (s.conn r).readCh := by
  have hread : ∀ {r : DialID} {x : Conn}, x.readCh = (s.conn r).readCh →
      ∀ r', ((s.setConn r x).conn r').readCh = (s.conn r').readCh := by
    intro r x hx r'
    by_cases hr : r' = r
    · subst hr
      rw [TunnelState.setConn_conn, Function.update_self, hx]
    · rw [TunnelState.setConn_conn, Function.update_of_ne hr]
  cases op with
  | send pkt k =>
      have hsent : ∀ e ∈ [Event.sent t pkt c.ok], ∃ pkt ok, e = .sent t pkt ok :=
        fun e he => ⟨pkt, c.ok, List.mem_singleton.mp he⟩
      cases k with
      | done =>
          simp only [exec, AfterSend.next] at hex
          cases hex
          exact ⟨(fun o ho => nomatch ho), (fun x ops' hst => nomatch hst), [_], rfl,
            hsent, rfl, rfl, rfl, rfl, fun _ => rfl⟩
      | dialReq r => cases h
      | closeConn r =>
          simp only [exec, AfterSend.next] at hex
          cases hex
          refine ⟨(fun o ho => nomatch ho), fun x ops' hst => ?_, [_], rfl, hsent, rfl, rfl, rfl,
            rfl, fun _ => rfl⟩
          cases hst
          refine ⟨rfl, fun o ho => ?_⟩
          rw [List.mem_singleton.mp ho]
          rfl
  | connClose r =>
      simp only [exec] at hex
      split at hex <;> cases hex
      · exact ⟨(fun o ho => nomatch ho), (fun x ops' hst => nomatch hst), [], rfl, by simp, rfl,
          rfl, rfl, rfl, fun _ => rfl⟩
      · exact ⟨outer_one rfl, (fun x ops' hst => nomatch hst), [], rfl, by simp, rfl, rfl, rfl,
          rfl, hread rfl⟩
  | closeCheckDone r =>
      simp only [exec] at hex
      split at hex <;> cases hex
      all_goals
        exact ⟨outer_one rfl, (fun x ops' hst => nomatch hst), [], rfl, by simp, rfl, rfl, rfl,
          rfl, fun _ => rfl⟩
  | awaitClose r =>
      simp only [exec] at hex
      repeat' split at hex
      all_goals cases hex
      · exact ⟨outer_one rfl, (fun x ops' hst => nomatch hst), [], rfl, by simp, rfl, rfl, rfl,
          rfl, hread rfl⟩
      all_goals
        exact ⟨outer_one rfl, (fun x ops' hst => nomatch hst), [], rfl, by simp, rfl, rfl, rfl,
          rfl, fun _ => rfl⟩
  | closeTunnel =>
      simp only [exec] at hex
      cases hex
      exact ⟨(fun o ho => nomatch ho), (fun x ops' hst => nomatch hst), [], rfl, by simp, rfl, rfl,
        rfl, rfl, fun _ => rfl⟩
  | _ => cases h

theorem TunnelInv.exec_outer (h : TunnelInv s) (hs : t ≠ .serve) (hd : t ≠ .dial)
    (ht : s.threads t = op :: rest) (hex : exec s.shared t c op = some (s₁, ops, start)) :
    TunnelInv ⟨s₁, Pool.spawn (Function.update s.threads t (ops ++ rest)) start⟩ := by
  have hop := h.outer t hs hd op (by rw [ht]; exact List.mem_cons_self)
  obtain ⟨hops, hstart, es, hlog, hes, hconns, hchans, hstarted, hdone, -⟩ :=
    Konnectivity.Client.exec_outer hop hex
  have hsame : ∀ x, x ≠ .awaiter → x ≠ t →
      Pool.spawn (Function.update s.threads t (ops ++ rest)) start x = s.threads x := by
    intro x hx hxt
    rw [Pool.spawn_of_ne fun ops' hst => hx (hstart x ops' hst).1, Function.update_of_ne hxt]
  refine h.outer_step (hsame _ (by simp) (Ne.symm hs)) (hsame _ (by simp) (Ne.symm hd)) ?_ es hlog
    ?_ hconns hchans hstarted hdone
  · intro x hxs hxd o ho
    rcases Pool.mem_of_spawn ho with ho | ⟨ops', hst, ho⟩
    · rcases Pool.mem_of_push ht ho with ⟨-, ho⟩ | ho
      · exact hops o ho
      · exact h.outer x hxs hxd o ho
    · exact (hstart x ops' hst).2 o ho
  · intro e he
    obtain ⟨pkt, ok, rfl⟩ := hes e he
    rfl

theorem TunnelInv.exec (h : TunnelInv s) (ht : s.threads t = op :: rest)
    (hex : exec s.shared t c op = some (s₁, ops, start)) :
    TunnelInv ⟨s₁, Pool.spawn (Function.update s.threads t (ops ++ rest)) start⟩ := by
  cases hm : op.isMetric with
  | true => exact h.metric ht hm hex
  | false =>
      by_cases hs : t = .serve
      · subst hs
        exact h.exec_serve ht hm hex
      · by_cases hd : t = .dial
        · subst hd
          exact h.exec_dial ht hm hex
        · exact h.exec_outer hs hd ht hex

theorem TunnelInv.arrive (h : TunnelInv s) {a : TunnelAction}
    (harr : arrive s.shared a = some (s₁, start)) {threads : Tid → List Op}
    (hthreads : Pool.Arrived s.threads start threads) : TunnelInv ⟨s₁, threads⟩ := by
  -- A user goroutine is given something to do.
  have huser : ∀ {k : Nat} {o : Op}, o.outer = true →
      Pool.Arrived s.threads (some (.user k, [o])) threads → s₁ = s.shared →
      TunnelInv ⟨s₁, threads⟩ := by
    rintro k o ho ⟨-, rfl⟩ rfl
    refine h.outer_step (Function.update_of_ne (by simp) _ _) (Function.update_of_ne (by simp) _ _)
      (fun x hxs hxd o' ho' => ?_) [] rfl (by simp) rfl rfl rfl rfl
    by_cases hx : x = .user k
    · subst hx
      rw [Function.update_self, List.mem_singleton] at ho'
      exact ho' ▸ ho
    · rw [Function.update_of_ne hx] at ho'
      exact h.outer x hxs hxd o' ho'
  -- Somebody reads, or the outside changes.
  have hquiet : ∀ (es : List Event), threads = s.threads → s₁.log = es ++ s.shared.log →
      (∀ e ∈ es, e.neutral = true) → s₁.conns = s.shared.conns → s₁.chans = s.shared.chans →
      s₁.started = s.shared.started → s₁.done = s.shared.done → TunnelInv ⟨s₁, threads⟩ := by
    rintro es rfl hlog hes hconns hchans hstarted hdone
    exact h.outer_step rfl rfl h.outer es hlog hes hconns hchans hstarted hdone
  cases a with
  | receive pkt =>
      simp only [Konnectivity.Client.arrive] at harr
      split at harr <;> cases harr
      next hd =>
        obtain ⟨ht, rfl⟩ := hthreads
        refine h.serve_step (List.subset_cons_self _ _) (.dispatch List.mem_cons_self)
          (h.history.frame [_] rfl rfl rfl rfl (by simp [Event.neutral]))
          (fun c r hr => by simpa using hr) (fun r res => ?_) fun hdone => absurd hdone hd
        have := h.offered r res
        rw [ht] at this
        exact ⟨(fun ho => nomatch this.mp ho), (fun hc => nomatch hc)⟩
  | recvEnd =>
      simp only [Konnectivity.Client.arrive] at harr
      split at harr <;> cases harr
      next hd =>
        obtain ⟨ht, rfl⟩ := hthreads
        refine h.serve_step (List.Subset.refl _) .closeAll h.history (fun c r hr => hr)
          (fun r res => ?_) fun hdone => absurd hdone hd
        have := h.offered r res
        rw [ht] at this
        exact ⟨(fun ho => nomatch this.mp ho), (fun hc => nomatch hc)⟩
  | cancelTunnel =>
      simp only [Konnectivity.Client.arrive] at harr
      cases harr
      exact hquiet [] hthreads rfl (by simp) rfl rfl rfl rfl
  | dialContext r protocol address =>
      simp only [Konnectivity.Client.arrive] at harr
      split at harr
      · cases harr
        exact hquiet [_] hthreads rfl (by simp [Event.neutral]) rfl rfl rfl rfl
      · next hst =>
          cases harr
          obtain ⟨ht, rfl⟩ := hthreads
          have hnone : ∀ r, .dialing r ∉ s.shared.log := fun r hr => hst (h.history.started r hr)
          refine h.dial_step (List.subset_cons_self _ _) (.checkDone List.mem_cons_self) ?_
            (fun o ho hun c r' hr' => ?_) (fun _ => rfl) rfl
          · refine ⟨⟨hnone, h.history.justified⟩, fun _ _ => rfl, fun c r hc => ?_, fun r hr => ?_⟩
            · exact List.mem_cons_of_mem _ (h.history.conns c r hc)
            · obtain ⟨res, ho, hh⟩ := h.history.taken r hr
              exact ⟨res, ho, List.mem_cons_of_mem _ hh⟩
          · have hreg : .registered c r' ∈ s.shared.log := by simpa using hr'
            exact hnone r' (h.history.handed (h.history.registered hreg)).1
  | read r n =>
      simp only [Konnectivity.Client.arrive] at harr
      repeat' split at harr
      all_goals cases harr
      all_goals exact hquiet [_] hthreads rfl (by simp [Event.neutral]) rfl rfl rfl rfl
  | write k r data =>
      simp only [Konnectivity.Client.arrive] at harr
      split at harr <;> cases harr
      exact huser rfl hthreads rfl
  | close k r =>
      simp only [Konnectivity.Client.arrive] at harr
      split at harr <;> cases harr
      exact huser rfl hthreads rfl

end Steps

theorem tunnel_inv {okExec : TunnelState → Tid → Choice → Op → Prop}
    {okArrive : TunnelState → TunnelAction → Prop} {s : System.State TunnelState Tid Op}
    (h : Reach tunnel.step (System.Allowed okExec okArrive) newTunnel s) : TunnelInv s := by
  refine System.invariant_state TunnelInv ?_ ?_ ?_ h
  · refine ⟨.idle, .idle, (fun t _ _ o ho => nomatch ho), ?_, (fun o ho => nomatch ho), ?_, ?_⟩
    · exact ⟨trivial, (fun r hr => nomatch hr), (fun c r hc => nomatch hc),
        (fun r hr => nomatch hr)⟩
    · exact fun r res => ⟨(fun ho => nomatch ho), (fun hc => nomatch hc)⟩
    · exact fun hd => nomatch hd
  · intro s t c o rest s₁ ops start _ hinv _ ht _ hex
    exact hinv.exec ht hex
  · intro s a s₁ start threads _ hinv _ _ harr hthreads
    exact hinv.arrive harr hthreads

/-! ## The channels of the connection -/

/-- A channel of a connection is closed on the way out of `serve` only. -/
structure ChanInv (s : System.State TunnelState Tid Op) : Prop where
  read : ∀ r, (s.shared.conn r).readCh.closed = true → s.shared.done = true ∨
    (.closeDone ∈ core (s.threads .serve) ∧ ∀ r', .closeReadCh r' ∉ core (s.threads .serve))
  close : ∀ r, (s.shared.conn r).closeCh.closed = true → s.shared.done = true ∨
    (.closeDone ∈ core (s.threads .serve) ∧
      ∀ r' pkt error, .sendCloseCh r' pkt error ∉ core (s.threads .serve))

section Chans

variable {s : System.State TunnelState Tid Op} {s₁ : TunnelState} {t : Tid} {c : Choice} {op : Op}
  {ops rest : List Op} {start : Option (Tid × List Op)}

theorem setConn_flags {s : TunnelState} {r : DialID} {x : Conn}
    (hread : x.readCh.closed = true → (s.conn r).readCh.closed = true)
    (hclose : x.closeCh.closed = true → (s.conn r).closeCh.closed = true) (r' : DialID) :
    (((s.setConn r x).conn r').readCh.closed = true → (s.conn r').readCh.closed = true) ∧
      (((s.setConn r x).conn r').closeCh.closed = true → (s.conn r').closeCh.closed = true) := by
  by_cases hr : r' = r
  · subst hr
    rw [TunnelState.setConn_conn, Function.update_self]
    exact ⟨hread, hclose⟩
  · rw [TunnelState.setConn_conn, Function.update_of_ne hr]
    exact ⟨id, id⟩

/-- `close(conn.readCh)` touches nothing else of a connection. -/
theorem closeReadCh_closeCh (s : TunnelState) (r r' : DialID) :
    ((s.closeReadCh r).conn r').closeCh = (s.conn r').closeCh := by
  unfold TunnelState.closeReadCh
  split
  · rfl
  · by_cases hr : r' = r
    · subst hr
      rw [TunnelState.setConn_conn, Function.update_self]
    · rw [TunnelState.setConn_conn, Function.update_of_ne hr]
      rfl

theorem closeReadCh_other (s : TunnelState) {r r' : DialID} (hr : r' ≠ r) :
    (s.closeReadCh r).conn r' = s.conn r' := by
  unfold TunnelState.closeReadCh
  split
  · rfl
  · rw [TunnelState.setConn_conn, Function.update_of_ne hr]
    rfl

theorem closeAll_closeCh (rs : List DialID) (s : TunnelState) (r : DialID) :
    ((rs.foldl TunnelState.closeReadCh s).conn r).closeCh = (s.conn r).closeCh := by
  induction rs generalizing s with
  | nil => rfl
  | cons r' rs ih => rw [List.foldl_cons, ih, closeReadCh_closeCh]

/-- Which operations close which channels. -/
theorem exec_flags {s : TunnelState} (hex : exec s t c op = some (s₁, ops, start)) (r : DialID) :
    ((s₁.conn r).readCh.closed = true →
      (s.conn r).readCh.closed = true ∨ op = .closeReadCh r ∨ op = .closeAll) ∧
    ((s₁.conn r).closeCh.closed = true →
      (s.conn r).closeCh.closed = true ∨ op = .closeCloseCh r) := by
  have hset : ∀ {r' : DialID} {x : Conn} {s' : TunnelState}, s'.conn = Function.update s.conn r' x →
      (x.readCh.closed = true → (s.conn r').readCh.closed = true) →
      (x.closeCh.closed = true → (s.conn r').closeCh.closed = true) →
      ((s'.conn r).readCh.closed = true →
        (s.conn r).readCh.closed = true ∨ op = .closeReadCh r ∨ op = .closeAll) ∧
      ((s'.conn r).closeCh.closed = true →
        (s.conn r).closeCh.closed = true ∨ op = .closeCloseCh r) := by
    intro r' x s' hs' hread hclose
    rw [hs']
    obtain ⟨h1, h2⟩ := setConn_flags hread hclose r
    exact ⟨fun h => Or.inl (h1 h), fun h => Or.inl (h2 h)⟩
  cases op with
  | sendReadCh r' pkt data =>
      simp only [exec] at hex
      obtain ⟨⟨s', ops'⟩, hsend, heq⟩ := Option.map_eq_some_iff.mp hex
      cases heq
      unfold TunnelState.sendReadCh at hsend
      repeat' split at hsend
      all_goals cases hsend
      all_goals try exact ⟨Or.inl, Or.inl⟩
      next ch hch =>
        exact hset rfl (fun h => by rwa [GoChan.send_closed hch] at h) id
  | closeReadCh r' =>
      simp only [exec] at hex
      cases hex
      rw [closeReadCh_closeCh]
      refine ⟨fun h => ?_, Or.inl⟩
      by_cases hr : r = r'
      · exact Or.inr (Or.inl (by rw [hr]))
      · rw [closeReadCh_other s hr] at h
        exact Or.inl h
  | sendCloseCh r' pkt error =>
      simp only [exec] at hex
      split at hex
      · cases hex
      · cases hex
        exact ⟨Or.inl, Or.inl⟩
      · next ch hch =>
          cases hex
          exact hset rfl id (fun h => by rwa [GoChan.send_closed hch] at h)
  | closeCloseCh r' =>
      simp only [exec] at hex
      split at hex <;> cases hex
      · exact ⟨Or.inl, Or.inl⟩
      · by_cases hr : r = r'
        · subst hr
          rw [TunnelState.setConn_conn, Function.update_self]
          exact ⟨Or.inl, fun _ => Or.inr rfl⟩
        · rw [TunnelState.setConn_conn, Function.update_of_ne hr]
          exact ⟨Or.inl, Or.inl⟩
  | closeAll =>
      simp only [exec] at hex
      cases hex
      rw [closeAll_closeCh]
      exact ⟨fun _ => Or.inr (Or.inr rfl), Or.inl⟩
  | connsAdd cid r' =>
      simp only [exec] at hex
      cases hex
      exact hset rfl (fun h => nomatch h) (fun h => nomatch h)
  | dialReturn r' ret =>
      simp only [exec] at hex
      split at hex <;> cases hex
      · exact hset rfl id id
      · exact ⟨Or.inl, Or.inl⟩
  | connClose r' =>
      simp only [exec] at hex
      split at hex <;> cases hex
      · exact ⟨Or.inl, Or.inl⟩
      · exact hset rfl id id
  | awaitClose r' =>
      simp only [exec] at hex
      repeat' split at hex
      all_goals cases hex
      all_goals try exact ⟨Or.inl, Or.inl⟩
      next v ch hch =>
        exact hset rfl id (fun h => by rwa [GoChan.recv_closed hch] at h)
  | awaitTaken r' res =>
      simp only [exec] at hex
      obtain ⟨⟨s', ops'⟩, haw, heq⟩ := Option.map_eq_some_iff.mp hex
      cases heq
      unfold TunnelState.awaitTaken at haw
      repeat' split at haw
      all_goals cases haw
      all_goals exact ⟨Or.inl, Or.inl⟩
  | awaitResult r' =>
      simp only [exec] at hex
      unfold TunnelState.awaitResult at hex
      repeat' split at hex
      all_goals cases hex
      all_goals exact ⟨Or.inl, Or.inl⟩
  | _ =>
      simp only [exec] at hex
      repeat' split at hex
      all_goals cases hex
      all_goals exact ⟨Or.inl, Or.inl⟩

/-- The operations of `serve` alone. -/
def Op.byServe : Op → Bool
  | .dispatch _ | .pendingGet _ _ | .offerResult _ _ | .awaitTaken _ _ | .connsGet _ _ => true
  | .sendReadCh _ _ _ | .closeReadCh _ | .sendCloseCh _ _ _ | .closeCloseCh _ => true
  | .connsRemove _ | .closeAll | .closeDone => true
  | _ => false

theorem TunnelInv.byServe (h : TunnelInv s) (hop : op.byServe = true) (ho : op ∈ s.threads t) :
    t = .serve := by
  by_contra hs
  by_cases hd : t = .dial
  · subst hd
    have hmem : op ∈ core (s.threads .dial) := by
      refine mem_core.mpr ⟨ho, ?_⟩
      cases op <;> first | rfl | cases hop
    have hdialing := h.dialing
    generalize core (s.threads .dial) = l at hmem hdialing
    cases hdialing <;> simp only [dialExit, List.mem_cons, List.not_mem_nil, or_false] at hmem
    all_goals
      repeat' rcases hmem with rfl | hmem
      all_goals cases hop
  · have houter := h.outer t hs hd op ho
    cases op <;> first | cases houter; done | cases hop

theorem exec_done {s : TunnelState} (hex : exec s t c op = some (s₁, ops, start)) :
    s₁.done = (s.done || op == .closeDone) := by
  cases op with
  | closeReadCh r =>
      simp only [exec] at hex
      cases hex
      rw [(closeReadCh_frame s r).2.2.2.1]
      simp
  | closeAll =>
      simp only [exec] at hex
      cases hex
      rw [(closeAll_frame _ s).2.2.2.1]
      simp
  | sendReadCh r pkt data =>
      simp only [exec] at hex
      obtain ⟨⟨s', ops'⟩, hsend, heq⟩ := Option.map_eq_some_iff.mp hex
      cases heq
      unfold TunnelState.sendReadCh at hsend
      repeat' split at hsend
      all_goals cases hsend
      all_goals simp
  | awaitTaken r res =>
      simp only [exec] at hex
      obtain ⟨⟨s', ops'⟩, haw, heq⟩ := Option.map_eq_some_iff.mp hex
      cases heq
      unfold TunnelState.awaitTaken at haw
      repeat' split at haw
      all_goals cases haw
      all_goals simp
  | awaitResult r =>
      simp only [exec] at hex
      unfold TunnelState.awaitResult at hex
      repeat' split at hex
      all_goals cases hex
      all_goals simp
  | _ =>
      simp only [exec] at hex
      repeat' split at hex
      all_goals cases hex
      all_goals simp

theorem ChanInv.exec_serve (h : ChanInv s) (hT : TunnelInv s) (ht : s.threads .serve = op :: rest)
    (hm : op.isMetric = false) (hex : exec s.shared .serve c op = some (s₁, ops, start)) :
    ChanInv ⟨s₁, Function.update s.threads .serve (ops ++ rest)⟩ := by
  have hcore : core (s.threads .serve) = op :: core rest := by
    rw [ht, core_cons hm]
  have hrun : s.shared.done = false := by
    cases hd : s.shared.done with
    | false => rfl
    | true =>
        rw [hT.done hd] at hcore
        cases hcore
  have hself : Function.update s.threads Tid.serve (ops ++ rest) .serve = ops ++ rest :=
    Function.update_self ..
  have hserving := hT.serving
  rw [hcore] at hserving
  generalize hrest : core rest = tail at hserving
  -- Off the way out nothing is closed, and the step closes nothing.
  have hopen : op ≠ .closeDone → tail = [] → op ≠ .closeAll →
      (∀ r, op ≠ .closeReadCh r) → (∀ r, op ≠ .closeCloseCh r) →
      ChanInv ⟨s₁, Function.update s.threads .serve (ops ++ rest)⟩ := by
    intro h1 h2 h3 h4 h5
    have hnot : .closeDone ∉ core (s.threads .serve) := by
      rw [hcore, hrest, h2]
      simpa using Ne.symm h1
    refine ⟨fun r hr => ?_, fun r hr => ?_⟩
    · rcases (exec_flags hex r).1 hr with hr | hr | hr
      · rcases h.read r hr with hd | ⟨hd, -⟩
        · rw [hrun] at hd
          cases hd
        · exact absurd hd hnot
      · exact absurd hr (h4 r)
      · exact absurd hr h3
    · rcases (exec_flags hex r).2 hr with hr | hr
      · rcases h.close r hr with hd | ⟨hd, -⟩
        · rw [hrun] at hd
          cases hd
        · exact absurd hd hnot
      · exact absurd hr (h5 r)
  -- On the way out the rest of the list says it all.
  have hout : .closeDone ∈ core (ops ++ rest) → (∀ r, .closeReadCh r ∉ core (ops ++ rest)) →
      (∀ r pkt e, .sendCloseCh r pkt e ∉ core (ops ++ rest)) →
      ChanInv ⟨s₁, Function.update s.threads .serve (ops ++ rest)⟩ := by
    intro h1 h2 h3
    refine ⟨fun r hr => ?_, fun r hr => ?_⟩
    · dsimp only
      rw [hself]
      exact Or.inr ⟨h1, h2⟩
    · dsimp only
      rw [hself]
      exact Or.inr ⟨h1, h3⟩
  cases hserving with
  | @closeReadCh r pkt error cid hr hb =>
      have hops : ops = [] := by
        simp only [Konnectivity.Client.exec] at hex
        cases hex
        rfl
      subst hops
      refine ⟨fun r' hr' => ?_, fun r' hr' => ?_⟩
      · dsimp only
        rw [hself, List.nil_append, hrest]
        exact Or.inr ⟨by simp, by simp⟩
      · exfalso
        rcases (exec_flags hex r').2 hr' with hr' | hr'
        · rcases h.close r' hr' with hd | ⟨-, hno⟩
          · rw [hrun] at hd
            cases hd
          · refine hno r pkt error ?_
            rw [hcore, hrest]
            simp
        · cases hr'
  | @sendCloseCh r pkt error cid hr hb =>
      have hops : ops = [] := by
        simp only [Konnectivity.Client.exec] at hex
        split at hex <;> cases hex <;> rfl
      subst hops
      refine hout ?_ ?_ ?_ <;> rw [List.nil_append, hrest] <;> simp
  | @closeCloseCh r cid hr =>
      have hops : ops = [] := by
        simp only [Konnectivity.Client.exec] at hex
        split at hex <;> cases hex <;> rfl
      subst hops
      refine hout ?_ ?_ ?_ <;> rw [List.nil_append, hrest] <;> simp
  | @connsRemove r cid hr =>
      have hops : ops = [] := by
        simp only [Konnectivity.Client.exec] at hex
        cases hex
        rfl
      subst hops
      refine hout ?_ ?_ ?_ <;> rw [List.nil_append, hrest] <;> simp
  | closeAll =>
      have hops : ops = [] := by
        simp only [Konnectivity.Client.exec] at hex
        cases hex
        rfl
      subst hops
      refine hout ?_ ?_ ?_ <;> rw [List.nil_append, hrest] <;> simp
  | closeDone =>
      have hdone : s₁.done = true := by
        rw [exec_done hex]
        simp
      exact ⟨fun _ _ => Or.inl hdone, fun _ _ => Or.inl hdone⟩
  | _ => exact hopen (by simp) rfl (by simp) (by simp) (by simp)

/-- `serve` and `dialContext` are started once. -/
theorem exec_start {s : TunnelState} (hex : exec s t c op = some (s₁, ops, start)) {x : Tid}
    (hx : x = .serve ∨ x = .dial) (ops' : List Op) : start ≠ some (x, ops') := by
  rintro rfl
  cases op with
  | send pkt k =>
      simp only [exec] at hex
      unfold AfterSend.next at hex
      split at hex <;> cases hex
      rcases hx with hx | hx <;> cases hx
  | sendReadCh r pkt data =>
      simp only [exec] at hex
      obtain ⟨x, -, heq⟩ := Option.map_eq_some_iff.mp hex
      cases heq
  | awaitTaken r res =>
      simp only [exec] at hex
      obtain ⟨x, -, heq⟩ := Option.map_eq_some_iff.mp hex
      cases heq
  | awaitResult r =>
      simp only [exec] at hex
      unfold TunnelState.awaitResult at hex
      repeat' split at hex
      all_goals cases hex
      all_goals rcases hx with hx | hx <;> cases hx
  | _ =>
      simp only [exec] at hex
      repeat' split at hex
      all_goals cases hex

/-- The events a goroutine other than `serve` records. -/
def Event.By (t : Tid) : Event → Prop
  | .sent t' _ _ => t' = t
  | .handed _ _ | .registered _ _ | .dialReturned _ _ => True
  | _ => False

/-- What anybody but `serve` does to the state. -/
theorem exec_aside {s : TunnelState} (hop : op.byServe = false)
    (hex : exec s t c op = some (s₁, ops, start)) :
    ∃ es, s₁.log = es ++ s.log ∧ (∀ e ∈ es, e.By t) ∧ s₁.ctxDone = s.ctxDone ∧
      s₁.done = s.done ∧ (∀ r res, .handed r res ∈ es → (s.chans r).offer = some res) ∧
      ((∃ cid r, es = [.registered cid r] ∧ s₁.conns = s.conns.insert cid r ∧
        s₁.conn = Function.update s.conn r { connID := cid }) ∨
      (s₁.conns = s.conns ∧ (∀ cid r, .registered cid r ∉ es) ∧
        ∀ r, (s₁.conn r).readCh = (s.conn r).readCh)) := by
  have hset : ∀ {r : DialID} {x : Conn}, x.readCh = (s.conn r).readCh →
      ∀ r', (Function.update s.conn r x r').readCh = (s.conn r').readCh := by
    intro r x hx r'
    by_cases hr : r' = r
    · subst hr
      rw [Function.update_self, hx]
    · rw [Function.update_of_ne hr]
  cases op with
  | send pkt k =>
      simp only [exec] at hex
      cases hex
      exact ⟨[_], rfl, by simp [Event.By], rfl, rfl, by simp, Or.inr ⟨rfl, by simp, fun _ => rfl⟩⟩
  | awaitResult r =>
      simp only [exec] at hex
      unfold TunnelState.awaitResult at hex
      repeat' split at hex
      all_goals cases hex
      · next res hoffer htaken =>
          refine ⟨[_], rfl, by simp [Event.By], rfl, rfl, fun r' res' he => ?_,
            Or.inr ⟨rfl, by simp, fun _ => rfl⟩⟩
          cases List.mem_singleton.mp he
          exact hoffer
      all_goals
        exact ⟨[], rfl, by simp, rfl, rfl, by simp, Or.inr ⟨rfl, by simp, fun _ => rfl⟩⟩
  | connsAdd cid r =>
      simp only [exec] at hex
      cases hex
      exact ⟨[_], rfl, by simp [Event.By], rfl, rfl, by simp, Or.inl ⟨cid, r, rfl, rfl, rfl⟩⟩
  | dialReturn r ret =>
      simp only [exec] at hex
      split at hex <;> cases hex
      · exact ⟨[_], rfl, by simp [Event.By], rfl, rfl, by simp,
          Or.inr ⟨rfl, by simp, hset rfl⟩⟩
      · exact ⟨[_], rfl, by simp [Event.By], rfl, rfl, by simp,
          Or.inr ⟨rfl, by simp, fun _ => rfl⟩⟩
  | connClose r =>
      simp only [exec] at hex
      split at hex <;> cases hex
      · exact ⟨[], rfl, by simp, rfl, rfl, by simp, Or.inr ⟨rfl, by simp, fun _ => rfl⟩⟩
      · exact ⟨[], rfl, by simp, rfl, rfl, by simp, Or.inr ⟨rfl, by simp, hset rfl⟩⟩
  | awaitClose r =>
      simp only [exec] at hex
      repeat' split at hex
      all_goals cases hex
      · exact ⟨[], rfl, by simp, rfl, rfl, by simp, Or.inr ⟨rfl, by simp, hset rfl⟩⟩
      all_goals
        exact ⟨[], rfl, by simp, rfl, rfl, by simp, Or.inr ⟨rfl, by simp, fun _ => rfl⟩⟩
  | _ =>
      first
      | cases hop
        done
      | simp only [exec] at hex
        repeat' split at hex
        all_goals cases hex
        all_goals
          exact ⟨[], rfl, by simp, rfl, rfl, by simp, Or.inr ⟨rfl, by simp, fun _ => rfl⟩⟩

theorem ChanInv.exec (h : ChanInv s) (hT : TunnelInv s) (ht : s.threads t = op :: rest)
    (hex : exec s.shared t c op = some (s₁, ops, start)) :
    ChanInv ⟨s₁, Pool.spawn (Function.update s.threads t (ops ++ rest)) start⟩ := by
  have hsame : Pool.spawn (Function.update s.threads t (ops ++ rest)) start .serve =
      Function.update s.threads t (ops ++ rest) .serve :=
    Pool.spawn_of_ne (exec_start hex (Or.inl rfl))
  -- A step of somebody else closes nothing and leaves `serve` where it is.
  have hquiet : op.byServe = false →
      core (Function.update s.threads t (ops ++ rest) .serve) = core (s.threads .serve) →
      ChanInv ⟨s₁, Pool.spawn (Function.update s.threads t (ops ++ rest)) start⟩ := by
    intro hop hcore
    have hdone : s₁.done = s.shared.done := by
      have hne : op ≠ .closeDone := by
        rintro rfl
        cases hop
      rw [exec_done hex]
      simp [hne]
    refine ⟨fun r hr => ?_, fun r hr => ?_⟩
    · dsimp only
      rw [hdone, hsame, hcore]
      rcases (exec_flags hex r).1 hr with hr | rfl | rfl
      · exact h.read r hr
      · cases hop
      · cases hop
    · dsimp only
      rw [hdone, hsame, hcore]
      rcases (exec_flags hex r).2 hr with hr | rfl
      · exact h.close r hr
      · cases hop
  by_cases hs : t = .serve
  · subst hs
    cases hm : op.isMetric with
    | true =>
        refine hquiet (by cases op <;> first | rfl | cases hm) ?_
        rw [Function.update_self, ht, core_append, core_metric (exec_metric hm hex).2.1]
        simp [core, hm]
    | false =>
        have hnew := h.exec_serve hT ht hm hex
        refine ⟨fun r hr => ?_, fun r hr => ?_⟩
        · dsimp only
          rw [hsame]
          exact hnew.read r hr
        · dsimp only
          rw [hsame]
          exact hnew.close r hr
  · refine hquiet (Bool.eq_false_iff.mpr fun hop => ?_) ?_
    · exact hs (hT.byServe hop (by rw [ht]; exact List.mem_cons_self))
    · rw [Function.update_of_ne (Ne.symm hs)]

/-- What arrives closes no channel. -/
theorem arrive_flags {s : TunnelState} {a : TunnelAction} (harr : arrive s a = some (s₁, start)) :
    s₁.done = s.done ∧ ∀ r, (s₁.conn r).readCh.closed = (s.conn r).readCh.closed ∧
      (s₁.conn r).closeCh.closed = (s.conn r).closeCh.closed := by
  have hset : ∀ {r : DialID} {x : Conn} {s' : TunnelState}, s'.conn = Function.update s.conn r x →
      x.readCh.closed = (s.conn r).readCh.closed → x.closeCh = (s.conn r).closeCh →
      ∀ r', (s'.conn r').readCh.closed = (s.conn r').readCh.closed ∧
        (s'.conn r').closeCh.closed = (s.conn r').closeCh.closed := by
    intro r x s' hs' hread hclose r'
    rw [hs']
    by_cases hr : r' = r
    · subst hr
      rw [Function.update_self, hread, hclose]
      exact ⟨rfl, rfl⟩
    · rw [Function.update_of_ne hr]
      exact ⟨rfl, rfl⟩
  have hreads : ∀ (x : Conn) (n : Nat) (data : Bytes),
      (x.read n data).1.readCh = x.readCh ∧ (x.read n data).1.closeCh = x.closeCh := by
    intro x n data
    unfold Conn.read
    repeat' split
    all_goals exact ⟨rfl, rfl⟩
  cases a with
  | read r n =>
      simp only [Konnectivity.Client.arrive] at harr
      repeat' split at harr
      · cases harr
      · cases harr
        obtain ⟨h1, h2⟩ := hreads (s.conn r) n (s.conn r).rdata
        exact ⟨rfl, hset rfl (by rw [h1]) h2⟩
      · cases harr
      · next data ch hrecv =>
          cases harr
          obtain ⟨h1, h2⟩ := hreads { s.conn r with readCh := ch } n (data.getD [])
          exact ⟨rfl, hset rfl (by rw [h1]; exact GoChan.recv_closed hrecv) h2⟩
  | _ =>
      simp only [Konnectivity.Client.arrive] at harr
      repeat' split at harr
      all_goals cases harr
      all_goals exact ⟨rfl, fun _ => ⟨rfl, rfl⟩⟩

/-- What arrives for `serve`, when it is idle and goes on. -/
theorem arrive_serve {s : TunnelState} {a : TunnelAction}
    (harr : arrive s a = some (s₁, some (.serve, ops))) : s.done = false := by
  cases a with
  | receive pkt =>
      simp only [Konnectivity.Client.arrive] at harr
      split at harr
      · cases harr
      · next hd => exact Bool.eq_false_iff.mpr hd
  | recvEnd =>
      simp only [Konnectivity.Client.arrive] at harr
      split at harr
      · cases harr
      · next hd => exact Bool.eq_false_iff.mpr hd
  | _ =>
      simp only [Konnectivity.Client.arrive] at harr
      repeat' split at harr
      all_goals cases harr

theorem ChanInv.arrive (h : ChanInv s) {a : TunnelAction}
    (harr : arrive s.shared a = some (s₁, start)) {threads : Tid → List Op}
    (hthreads : Pool.Arrived s.threads start threads) : ChanInv ⟨s₁, threads⟩ := by
  obtain ⟨hdone, hflags⟩ := arrive_flags harr
  by_cases hserve : threads .serve = s.threads .serve
  · refine ⟨fun r hr => ?_, fun r hr => ?_⟩
    · dsimp only at hr ⊢
      rw [hdone, hserve]
      exact h.read r ((hflags r).1 ▸ hr)
    · dsimp only at hr ⊢
      rw [hdone, hserve]
      exact h.close r ((hflags r).2 ▸ hr)
  · -- `serve` was idle, so that nothing has been closed.
    obtain ⟨ops', rfl⟩ : ∃ ops', start = some (.serve, ops') := by
      cases start with
      | none => exact absurd (congrFun hthreads _) hserve
      | some st =>
          by_cases hx : st.1 = .serve
          · exact ⟨st.2, by rw [← hx]⟩
          · obtain ⟨-, rfl⟩ := hthreads
            exact absurd (Function.update_of_ne (Ne.symm hx) _ _) hserve
    have hrun := arrive_serve harr
    have hidle : s.threads .serve = [] := hthreads.1
    have hopen : ∀ {P : Prop}, s.shared.done = true ∨
        (.closeDone ∈ core (s.threads .serve) ∧ P) → False := by
      rintro P (hd | ⟨hd, -⟩)
      · rw [hrun] at hd
        cases hd
      · rw [hidle] at hd
        cases hd
    refine ⟨fun r hr => ?_, fun r hr => ?_⟩
    · exact (hopen (h.read r ((hflags r).1 ▸ hr))).elim
    · exact (hopen (h.close r ((hflags r).2 ▸ hr))).elim

end Chans

theorem tunnel_chans {okExec : TunnelState → Tid → Choice → Op → Prop}
    {okArrive : TunnelState → TunnelAction → Prop} {s : System.State TunnelState Tid Op}
    (h : Reach tunnel.step (System.Allowed okExec okArrive) newTunnel s) : ChanInv s := by
  refine System.invariant_state ChanInv ?_ ?_ ?_ h
  · exact ⟨(fun r hr => nomatch hr), (fun r hr => nomatch hr)⟩
  · intro s t c o rest s₁ ops start hr hinv _ ht _ hex
    exact hinv.exec (tunnel_inv hr) ht hex
  · intro s a s₁ start threads hr hinv _ _ harr hthreads
    exact hinv.arrive harr hthreads

end Konnectivity.Client
