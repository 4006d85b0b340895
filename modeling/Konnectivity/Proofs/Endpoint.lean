import Konnectivity.Agent.Client

/-!
# Endpoint connections are released once

The goroutines of a connection share its channels and its `sync.Once`. Four
rights are handed from operation to operation: to close `dialDone`, to close
`sendDone`, to run `cleanFunc`, and the duty to call `cleanup` for a connection
that was dialed. Nobody else has the right meanwhile, so what the owner knows
of the connection stays true until it acts.

`view` is what of a connection matters here: which of its channels are closed,
how far `cleanFunc` is, and how often what happened.
-/

namespace Konnectivity.Agent.Client

open Lib

/-! ## One connection -/

structure ConnView where
  dialed : Bool
  entered : Bool
  done : Bool
  dialDone : Bool
  sendDone : Bool
  sendCh : Bool
  dataCh : Bool
  dials : Nat
  adds : Nat
  cleans : Nat
  deletes : Nat
  closes : Nat

def view (s : ClientState) (k : ConnID) : ConnView where
  dialed := (s.econn k).dialed
  entered := (s.econn k).onceEntered
  done := (s.econn k).onceDone
  dialDone := (s.econn k).dialDone.closed
  sendDone := (s.econn k).sendDone.closed
  sendCh := (s.econn k).sendCh.closed
  dataCh := (s.econn k).dataCh.closed
  dials := s.log.count (.dialed k)
  adds := s.log.count (.added k)
  cleans := s.log.count (.cleaning k)
  deletes := s.log.count (.deleted k)
  closes := s.log.count (.connClosed k)

/-- A connection nothing has happened to. -/
def ConnView.unused : ConnView :=
  ⟨false, false, false, false, false, false, false, 0, 0, 0, 0, 0⟩

/-- What `cleanFunc` has done: waited for `dialDone`, closed `sendCh` and
`dataCh`, deleted the connection, closed it. -/
def ConnView.stage (v : ConnView) : Nat × Bool × Bool × Nat × Nat :=
  (v.cleans, v.sendCh, v.dataCh, v.deletes, v.closes)

inductive Right where
  /-- Close `dialDone`. -/
  | dial
  /-- Close `sendDone`. -/
  | send
  /-- Run `cleanFunc`. -/
  | clean
  /-- See to it that `cleanup` is called. -/
  | resp
  deriving DecidableEq, Repr

structure ConnInv (v : ConnView) (h : Right → Prop) : Prop where
  dial : h .dial → v.dialDone = false
  send : h .send → v.sendDone = false
  clean : h .clean → v.entered = true ∧ v.done = false
  entered : v.entered = true → h .clean ∨ v.done = true
  fresh : v.entered = false → v.stage = (0, false, false, 0, 0) ∧ v.done = false
  owed : v.dialed = true → h .resp ∨ v.entered = true
  dials : v.dials = if v.dialed then 1 else 0
  adds : v.adds ≤ v.dials
  cleans : v.cleans ≤ 1 ∧ v.deletes ≤ v.cleans ∧ v.closes ≤ v.cleans
  cleaning : 0 < v.cleans → v.dialDone = true ∧ v.dialed = true
  done : v.done = true →
    v.dialDone = true ∧ (v.dialed = true → v.deletes = 1 ∧ v.closes = 1)

/-! ## Rights -/

def CleanCaller.tokens (k : ConnID) : CleanCaller → List (ConnID × Right)
  | .serve | .exit _ => []
  | .reader | .cleaner => [(k, .resp)]

def SendCaller.tokens : SendCaller → List (ConnID × Right)
  | .dialFailed k => [(k, .dial), (k, .send)]
  | .dialOk k => [(k, .dial), (k, .send), (k, .resp)]
  | .cleanup k caller => (k, .clean) :: caller.tokens k
  | .data k => [(k, .send)]
  | .serve | .drain => []

def Op.tokens : Op → List (ConnID × Right)
  | .send _ caller | .streamSend _ caller _ | .removeClient caller | .sendReturn caller _ =>
      caller.tokens
  | .netDial k _ | .addConn k | .failSendDone k true | .startReader k =>
      [(k, .dial), (k, .send), (k, .resp)]
  | .failSendDone k false | .startSender k => [(k, .dial), (k, .send)]
  | .startCleaner k => [(k, .dial), (k, .resp)]
  | .discardSendCh k | .startWriter k | .closeDialDone k => [(k, .dial)]
  | .cleanup k caller => caller.tokens k
  | .waitDialDone k caller | .closeSendCh k caller | .waitSendDone k caller
  | .closeDataCh k caller | .deleteConn k caller | .connClose k caller | .onceDone k caller =>
      (k, .clean) :: caller.tokens k
  | .connRead k | .sendChSend k _ => [(k, .resp)]
  | .sendChRecv k | .drainSendCh k | .closeSendDone k => [(k, .send)]
  | _ => []

/-- The connections still to clean up have been made. -/
def CleanCaller.Holds (s : ClientState) : CleanCaller → Prop
  | .exit rest => ∀ k ∈ rest, k ≤ s.nextConnID
  | _ => True

def SendCaller.Holds (s : ClientState) : SendCaller → Prop
  | .cleanup k caller => (view s k).stage = (1, true, false, 0, 0) ∧ caller.Holds s
  | _ => True

/-- What an operation knows. -/
def Op.Holds (s : ClientState) : Op → Prop
  | .send _ caller | .streamSend _ caller _ | .removeClient caller | .sendReturn caller _ =>
      caller.Holds s
  | .cleanupAll rest => ∀ k ∈ rest, k ≤ s.nextConnID
  | .netDial k _ => (view s k).dialed = false
  | .addConn k => (view s k).dialed = true ∧ (view s k).adds = 0
  | .cleanup k caller => k ≤ s.nextConnID ∧ caller.Holds s
  | .waitDialDone k caller => (view s k).stage = (0, false, false, 0, 0) ∧ caller.Holds s
  | .closeSendCh k caller => (view s k).stage = (1, false, false, 0, 0) ∧ caller.Holds s
  | .waitSendDone k caller | .closeDataCh k caller =>
      (view s k).stage = (1, true, false, 0, 0) ∧ caller.Holds s
  | .deleteConn k caller => (view s k).stage = (1, true, true, 0, 0) ∧ caller.Holds s
  | .connClose k caller => (view s k).stage = (1, true, true, 1, 0) ∧ caller.Holds s
  | .onceDone k caller =>
      ((view s k).stage = (1, true, true, 1, 1) ∨
        ((view s k).dialDone = true ∧ (view s k).dialed = false)) ∧ caller.Holds s
  | _ => True

structure AgentInv (s : ClientState) (H : ConnID × Right → Prop) : Prop where
  conn : ∀ k, ConnInv (view s k) fun r => H (k, r)
  unused : ∀ k, s.nextConnID < k → view s k = .unused ∧ ∀ r, ¬ H (k, r)
  listed : ∀ id k, s.connections.lookup id = some k →
    id = k.wire ∧ (view s k).adds = 1 ∧ (view s k).deletes = 0
  panic : ∀ reason, s.panic ≠ some (.chan reason)

/-! ## Steps -/

/-- What an operation may change of the connections, given its rights. -/
structure Change (s s₁ : ClientState) (tok : List (ConnID × Right)) : Prop where
  next : s.nextConnID ≤ s₁.nextConnID
  stage : ∀ k, (k, .clean) ∉ tok → (view s₁ k).stage = (view s k).stage
  dial : ∀ k, (k, .dial) ∉ tok →
    (view s₁ k).dialed = (view s k).dialed ∧ (view s₁ k).adds = (view s k).adds
  done : ∀ k, (view s k).dialDone = true →
    (view s₁ k).dialDone = true ∧ (view s₁ k).dialed = (view s k).dialed

section Steps

variable {s s₁ : ClientState} {H H' : ConnID × Right → Prop} {t : Tid} {c : Choice} {op o : Op}
  {ops : List Op} {start : Option (Tid × List Op)} {tok : List (ConnID × Right)} {k : ConnID}

theorem CleanCaller.Holds.next {caller : CleanCaller} (h : caller.Holds s)
    (hle : s.nextConnID ≤ s₁.nextConnID) : caller.Holds s₁ := by
  cases caller with
  | exit rest => exact fun k hk => Nat.le_trans (h k hk) hle
  | serve => trivial
  | reader => trivial
  | cleaner => trivial

theorem Change.sendCaller (hc : Change s s₁ tok) {caller : SendCaller}
    (htok : ∀ x ∈ caller.tokens, x ∉ tok) (h : caller.Holds s) : caller.Holds s₁ := by
  cases caller with
  | cleanup k caller =>
      refine ⟨?_, h.2.next hc.next⟩
      rw [hc.stage k (htok _ List.mem_cons_self)]
      exact h.1
  | _ => trivial

/-- What an operation knows stays true while others act. -/
theorem Change.holds (hc : Change s s₁ tok) (htok : ∀ x ∈ o.tokens, x ∉ tok) (h : o.Holds s) :
    o.Holds s₁ := by
  cases o with
  | send _ caller => exact hc.sendCaller htok h
  | streamSend _ caller _ => exact hc.sendCaller htok h
  | removeClient caller => exact hc.sendCaller htok h
  | sendReturn caller _ => exact hc.sendCaller htok h
  | cleanupAll rest => exact fun k hk => Nat.le_trans (h k hk) hc.next
  | netDial k _ => exact (hc.dial k (htok _ List.mem_cons_self)).1.trans h
  | addConn k =>
      obtain ⟨h1, h2⟩ := hc.dial k (htok _ List.mem_cons_self)
      exact ⟨h1.trans h.1, h2.trans h.2⟩
  | cleanup k caller => exact ⟨Nat.le_trans h.1 hc.next, h.2.next hc.next⟩
  | waitDialDone k caller =>
      exact ⟨(hc.stage k (htok _ List.mem_cons_self)).trans h.1, h.2.next hc.next⟩
  | closeSendCh k caller =>
      exact ⟨(hc.stage k (htok _ List.mem_cons_self)).trans h.1, h.2.next hc.next⟩
  | waitSendDone k caller =>
      exact ⟨(hc.stage k (htok _ List.mem_cons_self)).trans h.1, h.2.next hc.next⟩
  | closeDataCh k caller =>
      exact ⟨(hc.stage k (htok _ List.mem_cons_self)).trans h.1, h.2.next hc.next⟩
  | deleteConn k caller =>
      exact ⟨(hc.stage k (htok _ List.mem_cons_self)).trans h.1, h.2.next hc.next⟩
  | connClose k caller =>
      exact ⟨(hc.stage k (htok _ List.mem_cons_self)).trans h.1, h.2.next hc.next⟩
  | onceDone k caller =>
      refine ⟨?_, h.2.next hc.next⟩
      rcases h.1 with h1 | ⟨h1, h2⟩
      · exact Or.inl ((hc.stage k (htok _ List.mem_cons_self)).trans h1)
      · obtain ⟨h3, h4⟩ := hc.done k h1
        exact Or.inr ⟨h3, h4.trans h2⟩
  | _ => trivial

/-- What one operation leaves behind. -/
structure Kept (s s₁ : ClientState) (H : ConnID × Right → Prop) (op : Op) (ops : List Op)
    (start : Option (Tid × List Op)) : Prop where
  nodup : (ops.flatMap Op.tokens ++ Pool.startTokens Op.tokens start).Nodup
  free : ∀ x ∈ ops.flatMap Op.tokens ++ Pool.startTokens Op.tokens start, x ∈ op.tokens ∨ ¬ H x
  inv : AgentInv s₁ fun x => x ∈ ops.flatMap Op.tokens ++ Pool.startTokens Op.tokens start ∨
    (H x ∧ x ∉ op.tokens)
  change : Change s s₁ op.tokens
  holds : ∀ o ∈ ops, o.Holds s₁
  started : System.StartOk (fun _ o => Op.Holds s₁ o) start

/-- What operations leave alone that neither close nor clean up. -/
structure Quiet (s s₁ : ClientState) : Prop where
  same : ∀ k, view s₁ k = view s k
  connections : s₁.connections = s.connections
  next : s₁.nextConnID = s.nextConnID
  panic : s₁.panic = s.panic ∨ s₁.panic = some .nilPayload

theorem Quiet.change (hq : Quiet s s₁) : Change s s₁ tok := by
  refine ⟨Nat.le_of_eq hq.next.symm, fun k _ => ?_, fun k _ => ?_, fun k hk => ?_⟩
  · rw [hq.same]
  · rw [hq.same]
    exact ⟨rfl, rfl⟩
  · rw [hq.same]
    exact ⟨hk, rfl⟩

/-- Rights can be given up, except those to finish `cleanFunc` and to call
`cleanup`. -/
theorem ConnInv.giveUp {v : ConnView} {h h' : Right → Prop} (hv : ConnInv v h)
    (hle : ∀ r, h' r → h r) (hclean : h .clean → h' .clean)
    (hresp : h .resp → h' .resp ∨ v.entered = true ∨ v.dialed = false) : ConnInv v h' := by
  refine ⟨fun hr => hv.dial (hle _ hr), fun hr => hv.send (hle _ hr), fun hr => hv.clean (hle _ hr),
    fun he => (hv.entered he).imp_left hclean, hv.fresh, fun hd => ?_, hv.dials, hv.adds, hv.cleans,
    hv.cleaning, hv.done⟩
  rcases hv.owed hd with hr | he
  · rcases hresp hr with hr | he | hn
    · exact Or.inl hr
    · exact Or.inr he
    · rw [hd] at hn
      cases hn
  · exact Or.inr he

theorem Quiet.inv (hq : Quiet s s₁) (h : AgentInv s H) (hle : ∀ x, H' x → H x)
    (hclean : ∀ k, H (k, .clean) → H' (k, .clean))
    (hresp : ∀ k, H (k, .resp) → H' (k, .resp) ∨ (view s k).entered = true ∨
      (view s k).dialed = false) : AgentInv s₁ H' := by
  refine ⟨fun k => ?_, fun k hk => ?_, fun id k hid => ?_, fun reason => ?_⟩
  · rw [hq.same]
    exact (h.conn k).giveUp (fun r => hle (k, r)) (hclean k) (hresp k)
  · rw [hq.next] at hk
    rw [hq.same]
    exact ⟨(h.unused k hk).1, fun r hr => (h.unused k hk).2 r (hle _ hr)⟩
  · rw [hq.connections] at hid
    rw [hq.same]
    exact h.listed id k hid
  · rcases hq.panic with hp | hp
    · rw [hp]
      exact h.panic reason
    · rw [hp]
      exact fun heq => nomatch heq

theorem Quiet.kept (hq : Quiet s s₁) (h : AgentInv s H) (hown : ∀ x ∈ op.tokens, H x)
    (hnd : (ops.flatMap Op.tokens ++ Pool.startTokens Op.tokens start).Nodup)
    (hsub : ∀ x ∈ ops.flatMap Op.tokens ++ Pool.startTokens Op.tokens start, x ∈ op.tokens)
    (hclean : ∀ k, (k, .clean) ∈ op.tokens →
      (k, .clean) ∈ ops.flatMap Op.tokens ++ Pool.startTokens Op.tokens start)
    (hresp : ∀ k, (k, .resp) ∈ op.tokens →
      (k, .resp) ∈ ops.flatMap Op.tokens ++ Pool.startTokens Op.tokens start ∨
        (view s k).entered = true ∨ (view s k).dialed = false)
    (hops : ∀ o ∈ ops, o.Holds s₁) (hstart : System.StartOk (fun _ o => Op.Holds s₁ o) start) :
    Kept s s₁ H op ops start := by
  refine ⟨hnd, fun x hx => Or.inl (hsub x hx), hq.inv h (fun x hx => ?_) (fun k hr => ?_)
    (fun k hr => ?_), hq.change, hops, hstart⟩
  · exact hx.elim (fun hx => hown x (hsub x hx)) And.left
  · by_cases hin : (k, Right.clean) ∈ op.tokens
    · exact Or.inl (hclean k hin)
    · exact Or.inr ⟨hr, hin⟩
  · by_cases hin : (k, Right.resp) ∈ op.tokens
    · exact (hresp k hin).imp_left Or.inl
    · exact Or.inl (Or.inr ⟨hr, hin⟩)

/-- An operation that changes one connection. -/
theorem AgentInv.changes (h : AgentInv s H) (hk : k ≤ s.nextConnID)
    (hopk : ∀ x ∈ op.tokens, x.1 = k)
    (hnd : (ops.flatMap Op.tokens).Nodup)
    (hnew : ∀ x ∈ ops.flatMap Op.tokens, x.1 = k ∧ (x ∈ op.tokens ∨ ¬ H x))
    (hnext : s₁.nextConnID = s.nextConnID) (hpanic : s₁.panic = s.panic)
    (hother : ∀ k', k' ≠ k → view s₁ k' = view s k')
    (hlisted : ∀ id k', s₁.connections.lookup id = some k' →
      (k' ≠ k ∧ s.connections.lookup id = some k') ∨
        (k' = k ∧ id = k.wire ∧ (view s₁ k).adds = 1 ∧ (view s₁ k).deletes = 0))
    (hconn : ConnInv (view s₁ k) fun r =>
      (k, r) ∈ ops.flatMap Op.tokens ∨ (H (k, r) ∧ (k, r) ∉ op.tokens))
    (hstage : (k, .clean) ∈ op.tokens ∨ (view s₁ k).stage = (view s k).stage)
    (hdial : (k, .dial) ∈ op.tokens ∨
      ((view s₁ k).dialed = (view s k).dialed ∧ (view s₁ k).adds = (view s k).adds))
    (hdone : (view s k).dialDone = true →
      (view s₁ k).dialDone = true ∧ (view s₁ k).dialed = (view s k).dialed)
    (hops : ∀ o ∈ ops, o.Holds s₁) : Kept s s₁ H op ops none := by
  have hflat : ops.flatMap Op.tokens ++ Pool.startTokens Op.tokens (none : Option (Tid × List Op)) =
      ops.flatMap Op.tokens := List.append_nil _
  refine ⟨by rwa [hflat], fun x hx => (hnew x (by rwa [hflat] at hx)).2, ?_,
    ⟨Nat.le_of_eq hnext.symm, fun k' hk' => ?_, fun k' hk' => ?_, fun k' hk' => ?_⟩, hops, trivial⟩
  · rw [hflat]
    refine ⟨fun k' => ?_, fun k' hk' => ?_, fun id k' hid => ?_, fun reason => ?_⟩
    · by_cases hkk : k' = k
      · subst hkk
        exact hconn
      · have hsame : (fun r => (k', r) ∈ ops.flatMap Op.tokens ∨
            (H (k', r) ∧ (k', r) ∉ op.tokens)) = fun r => H (k', r) := by
          funext r
          refine propext ⟨fun hr => ?_, fun hr => Or.inr ⟨hr, fun hin => hkk (hopk _ hin)⟩⟩
          exact hr.elim (fun hin => absurd (hnew _ hin).1 hkk) And.left
        rw [hsame, hother k' hkk]
        exact h.conn k'
    · rw [hnext] at hk'
      have hkk : k' ≠ k := by
        rintro rfl
        exact Nat.not_lt.mpr hk hk'
      rw [hother k' hkk]
      refine ⟨(h.unused k' hk').1, fun r hr => ?_⟩
      exact hr.elim (fun hin => hkk (hnew _ hin).1) fun hr => (h.unused k' hk').2 r hr.1
    · rcases hlisted id k' hid with ⟨hkk, hid⟩ | ⟨rfl, hid⟩
      · rw [hother k' hkk]
        exact h.listed id k' hid
      · exact hid
    · rw [hpanic]
      exact h.panic reason
  · by_cases hkk : k' = k
    · subst hkk
      exact hstage.resolve_left hk'
    · rw [hother k' hkk]
  · by_cases hkk : k' = k
    · subst hkk
      exact hdial.resolve_left hk'
    · rw [hother k' hkk]
      exact ⟨rfl, rfl⟩
  · by_cases hkk : k' = k
    · subst hkk
      exact hdone hk'
    · rw [hother k' hkk]
      exact ⟨hk', rfl⟩

theorem AgentInv.made (h : AgentInv s H) {r : Right} (hr : H (k, r)) : k ≤ s.nextConnID :=
  Nat.le_of_not_lt fun hlt => (h.unused k hlt).2 r hr

/-! ## The operations -/

theorem view_record (s : ClientState) (e : Event) (k : ConnID)
    (h : e ≠ .dialed k ∧ e ≠ .added k ∧ e ≠ .cleaning k ∧ e ≠ .deleted k ∧ e ≠ .connClosed k) :
    view (s.record e) k = view s k := by
  obtain ⟨h1, h2, h3, h4, h5⟩ := h
  simp [view, h1, h2, h3, h4, h5]

theorem view_setConn_of_ne (s : ClientState) {k k' : ConnID} (e : EndpointConn) (h : k' ≠ k) :
    view (s.setConn k e) k' = view s k' := by
  simp [view, h]

/-- A channel was sent to or received from. -/
theorem Quiet.setConn {e : EndpointConn}
    (h : e.dialed = (s.econn k).dialed ∧ e.onceEntered = (s.econn k).onceEntered ∧
      e.onceDone = (s.econn k).onceDone ∧ e.dialDone.closed = (s.econn k).dialDone.closed ∧
      e.sendDone.closed = (s.econn k).sendDone.closed ∧
      e.sendCh.closed = (s.econn k).sendCh.closed ∧ e.dataCh.closed = (s.econn k).dataCh.closed) :
    Quiet s (s.setConn k e) := by
  obtain ⟨h1, h2, h3, h4, h5, h6, h7⟩ := h
  refine ⟨fun k' => ?_, rfl, rfl, Or.inl rfl⟩
  by_cases hk : k' = k
  · subst hk
    simp [view, h1, h2, h3, h4, h5, h6, h7]
  · exact view_setConn_of_ne s e hk

theorem Quiet.setSendCh {ch : GoChan Bytes} (h : ch.closed = (s.econn k).sendCh.closed) :
    Quiet s (s.setConn k { s.econn k with sendCh := ch }) :=
  .setConn ⟨rfl, rfl, rfl, rfl, rfl, h, rfl⟩

theorem Quiet.setDataCh {ch : GoChan Bytes} (h : ch.closed = (s.econn k).dataCh.closed) :
    Quiet s (s.setConn k { s.econn k with dataCh := ch }) :=
  .setConn ⟨rfl, rfl, rfl, rfl, rfl, rfl, h⟩

theorem Quiet.record {e : Event} (h : ∀ k, e ≠ .dialed k ∧ e ≠ .added k ∧ e ≠ .cleaning k ∧
    e ≠ .deleted k ∧ e ≠ .connClosed k) : Quiet s (s.record e) :=
  ⟨fun k => view_record s e k (h k), rfl, rfl, Or.inl rfl⟩

theorem Quiet.refl : Quiet s s := ⟨fun _ => rfl, rfl, rfl, Or.inl rfl⟩

theorem CleanCaller.tokens_nodup (k : ConnID) (caller : CleanCaller) :
    ((k, Right.clean) :: caller.tokens k).Nodup := by
  cases caller <;> simp [CleanCaller.tokens]

theorem SendCaller.tokens_nodup (caller : SendCaller) : caller.tokens.Nodup := by
  cases caller with
  | cleanup k caller => exact caller.tokens_nodup k
  | _ => simp [SendCaller.tokens]

theorem SendCaller.returned_tokens (caller : SendCaller) (ok : Bool) :
    ((caller.returned ok).flatMap Op.tokens).Nodup ∧
      (∀ x ∈ (caller.returned ok).flatMap Op.tokens, x ∈ caller.tokens) ∧
      ∀ x ∈ caller.tokens, x.2 = .clean ∨ x.2 = .resp →
        x ∈ (caller.returned ok).flatMap Op.tokens := by
  cases caller with
  | cleanup k caller =>
      have hflat : ((SendCaller.cleanup k caller).returned ok).flatMap Op.tokens =
          (k, Right.clean) :: caller.tokens k := by
        simp [SendCaller.returned, Op.tokens]
      rw [hflat]
      exact ⟨caller.tokens_nodup k, fun _ => id, fun _ hx _ => hx⟩
  | _ => cases ok <;> simp [SendCaller.returned, SendCaller.tokens, Op.tokens]

theorem SendCaller.returned_holds {caller : SendCaller} (h : caller.Holds s) (ok : Bool) :
    ∀ o ∈ caller.returned ok, o.Holds s := by
  intro o ho
  cases caller with
  | cleanup k caller =>
      rw [List.mem_singleton.mp ho]
      exact h
  | _ =>
      cases ok <;> simp only [SendCaller.returned, List.mem_singleton, List.not_mem_nil] at ho <;>
      (rw [ho]; trivial)

/-- `Client.Send`. -/
theorem AgentInv.exec_send (h : AgentInv s H) (hown : ∀ x ∈ op.tokens, H x) (hop : op.Holds s)
    (hkind : (∃ pkt caller, op = .send pkt caller) ∨
      (∃ pkt caller b, op = .streamSend pkt caller b) ∨ (∃ caller, op = .removeClient caller) ∨
      ∃ caller ok, op = .sendReturn caller ok)
    (hex : exec s t c op = some (s₁, ops, start)) : Kept s s₁ H op ops start := by
  -- the same caller, and nothing happens to a connection
  have hsame : ∀ {s₁ : ClientState} {o : Op} {caller : SendCaller}, Quiet s s₁ →
      op.tokens = caller.tokens → o.tokens = caller.tokens → o.Holds s₁ →
      Kept s s₁ H op [o] none := by
    intro s₁ o caller hq htok htok' ho
    have hflat : [o].flatMap Op.tokens ++
        Pool.startTokens Op.tokens (none : Option (Tid × List Op)) = op.tokens := by
      simp [Pool.startTokens, htok, htok']
    refine hq.kept h hown ?_ (fun x hx => hflat ▸ hx) (fun k hk => ?_) (fun k hk => ?_) ?_ trivial
    · rw [hflat, htok]
      exact caller.tokens_nodup
    · rwa [hflat]
    · rw [hflat]
      exact Or.inl hk
    · simpa using ho
  rcases hkind with ⟨pkt, caller, rfl⟩ | ⟨pkt, caller, b, rfl⟩ | ⟨caller, rfl⟩ | ⟨caller, ok, rfl⟩
  · simp only [exec] at hex
    split at hex <;> cases hex
    exact hsame ⟨fun _ => rfl, rfl, rfl, Or.inl rfl⟩ rfl rfl hop
  · simp only [exec] at hex
    repeat' split at hex
    all_goals cases hex
    · refine hsame ⟨fun k => view_record _ _ _ ?_, rfl, rfl, Or.inl rfl⟩ rfl rfl ?_
      · simp
      · exact hop
    · exact hsame .refl rfl rfl hop
    · exact hsame .refl rfl rfl hop
  · simp only [exec] at hex
    cases hex
    exact hsame ⟨fun _ => rfl, rfl, rfl, Or.inl rfl⟩ rfl rfl hop
  · simp only [exec] at hex
    cases hex
    obtain ⟨h1, h2, h3⟩ := caller.returned_tokens ok
    refine Quiet.kept ⟨fun _ => rfl, rfl, rfl, Or.inl rfl⟩ h hown ?_ ?_ ?_ ?_ ?_ trivial
    · rwa [Pool.startTokens, List.append_nil]
    · rwa [Pool.startTokens, List.append_nil]
    · rw [Pool.startTokens, List.append_nil]
      exact fun k hk => h3 _ hk (Or.inl rfl)
    · rw [Pool.startTokens, List.append_nil]
      exact fun k hk => Or.inl (h3 _ hk (Or.inr rfl))
    · exact SendCaller.returned_holds hop ok

/-- A channel that is open is closed. -/
theorem closeCh_open {α : Type} {ch : GoChan α} (h : ch.closed = false)
    (set : GoChan α → EndpointConn) :
    closeCh s k ch set ops = some (s.setConn k (set { ch with closed := true }), ops, none) := by
  simp [closeCh, GoChan.close, h]

theorem CleanCaller.returned_tokens (caller : CleanCaller) :
    caller.returned.flatMap Op.tokens = [] := by
  cases caller <;> simp [CleanCaller.returned, Op.tokens]

theorem CleanCaller.returned_holds {caller : CleanCaller} (h : caller.Holds s) :
    ∀ o ∈ caller.returned, o.Holds s := by
  intro o ho
  cases caller with
  | exit rest =>
      rw [List.mem_singleton.mp ho]
      exact h
  | serve =>
      rw [List.mem_singleton.mp ho]
      trivial
  | reader => cases ho
  | cleaner => cases ho

theorem CleanCaller.tokens_conn {caller : CleanCaller} {x : ConnID × Right}
    (h : x ∈ caller.tokens k) : x = (k, .resp) := by
  cases caller <;> simp [CleanCaller.tokens] at h
  · exact h
  · exact h

/-- An operation of `cleanFunc` that is followed by another. -/
theorem AgentInv.cleans (h : AgentInv s H) {caller : CleanCaller} {v : ConnView}
    (hown : ∀ x ∈ op.tokens, H x) (htok : op.tokens = (k, .clean) :: caller.tokens k)
    (htok' : o.tokens = (k, .clean) :: caller.tokens k)
    (hnext : s₁.nextConnID = s.nextConnID) (hpanic : s₁.panic = s.panic)
    (hother : ∀ k', k' ≠ k → view s₁ k' = view s k') (hview : view s₁ k = v)
    (hlisted : ∀ id k', s₁.connections.lookup id = some k' →
      s.connections.lookup id = some k' ∧ (k' = k → v.deletes = 0))
    (hsame : v.dialed = (view s k).dialed ∧ v.entered = (view s k).entered ∧
      v.done = (view s k).done ∧ v.dialDone = (view s k).dialDone ∧
      v.sendDone = (view s k).sendDone ∧ v.dials = (view s k).dials ∧ v.adds = (view s k).adds)
    (hcount : v.cleans ≤ 1 ∧ v.deletes ≤ v.cleans ∧ v.closes ≤ v.cleans)
    (hdone : 0 < v.cleans → v.dialDone = true ∧ v.dialed = true) (ho : o.Holds s₁) :
    Kept s s₁ H op [o] none := by
  subst hview
  obtain ⟨h1, h2, h3, h4, h5, h6, h7⟩ := hsame
  have hk := h.conn k
  have hclean : H (k, .clean) := hown _ (by rw [htok]; exact List.mem_cons_self)
  obtain ⟨hentered, hopen⟩ := hk.clean hclean
  have hflat : [o].flatMap Op.tokens = op.tokens := by
    simp [htok, htok']
  have hH : (fun r => (k, r) ∈ [o].flatMap Op.tokens ∨ (H (k, r) ∧ (k, r) ∉ op.tokens)) =
      fun r => H (k, r) := by
    funext r
    rw [hflat]
    refine propext ⟨fun hr => hr.elim (hown _) And.left, fun hr => ?_⟩
    by_cases hin : (k, r) ∈ op.tokens
    · exact Or.inl hin
    · exact Or.inr ⟨hr, hin⟩
  have hconn : ∀ x ∈ op.tokens, x.1 = k := by
    intro x hx
    rw [htok] at hx
    rcases List.mem_cons.mp hx with rfl | hx
    · rfl
    · rw [CleanCaller.tokens_conn hx]
  refine h.changes (h.made hclean) hconn ?_ (fun x hx => ?_) hnext hpanic hother
    (fun id k' hid => ?_) ?_
    (Or.inl (by rw [htok]; exact List.mem_cons_self)) (Or.inr ⟨h1, h7⟩) (fun hd => ?_)
    (by simpa using ho)
  · rw [hflat, htok]
    exact caller.tokens_nodup k
  · rw [hflat] at hx
    exact ⟨hconn x hx, Or.inl hx⟩
  · obtain ⟨hid', hdel⟩ := hlisted id k' hid
    by_cases hkk : k' = k
    · subst hkk
      obtain ⟨hwire, hadds, -⟩ := h.listed id k' hid'
      exact Or.inr ⟨rfl, hwire, h7.trans hadds, hdel rfl⟩
    · exact Or.inl ⟨hkk, hid'⟩
  · rw [hH]
    refine ⟨fun hr => ?_, fun hr => ?_, fun hr => ?_, fun he => Or.inl hclean, fun he => ?_,
      fun hd => ?_, ?_, ?_, hcount, hdone, fun hd => ?_⟩
    · rw [h4]
      exact hk.dial hr
    · rw [h5]
      exact hk.send hr
    · rw [h2, h3]
      exact hk.clean hr
    · rw [h2, hentered] at he
      cases he
    · exact Or.inr (h2.trans hentered)
    · rw [h6, h1]
      exact hk.dials
    · rw [h6, h7]
      exact hk.adds
    · rw [h3, hopen] at hd
      cases hd
  · exact ⟨h4.trans hd, h1⟩

/-- The body of `cleanFunc`. -/
theorem AgentInv.exec_cleanFunc (h : AgentInv s H) {caller : CleanCaller}
    (hown : ∀ x ∈ op.tokens, H x) (hop : op.Holds s)
    (hkind : op = .waitDialDone k caller ∨ op = .closeSendCh k caller ∨
      op = .waitSendDone k caller ∨
      op = .closeDataCh k caller ∨ op = .deleteConn k caller ∨ op = .connClose k caller)
    (hex : exec s t c op = some (s₁, ops, start)) : Kept s s₁ H op ops start := by
  have hk := h.conn k
  have hsame : ∀ k', k' ≠ k → view s k' = view s k' := fun _ _ => rfl
  have hlisted : ∀ id k', s.connections.lookup id = some k' →
      s.connections.lookup id = some k' ∧ (k' = k → (view s k).deletes = 0) := by
    rintro id k' hid
    refine ⟨hid, ?_⟩
    rintro rfl
    exact (h.listed id k' hid).2.2
  rcases hkind with rfl | rfl | rfl | rfl | rfl | rfl
  · obtain ⟨hstage, hcaller⟩ := hop
    simp only [ConnView.stage, Prod.mk.injEq] at hstage
    obtain ⟨h1, h2, h3, h4, h5⟩ := hstage
    simp only [exec] at hex
    split at hex
    · cases hex
    · next hopen =>
        have hdone : (view s k).dialDone = true := by simpa [view] using hopen
        split at hex
        · next hnot =>
            cases hex
            refine h.cleans hown rfl rfl rfl rfl hsame rfl hlisted
              ⟨rfl, rfl, rfl, rfl, rfl, rfl, rfl⟩
              hk.cleans hk.cleaning ⟨Or.inr ⟨hdone, ?_⟩, hcaller⟩
            simpa [view] using hnot
        · next hdialed =>
            cases hex
            have hd : (view s k).dialed = true := by simpa [view] using hdialed
            have hview : view (s.record (.cleaning k)) k =
                { view s k with cleans := (view s k).cleans + 1 } := by
              simp [view]
            refine h.cleans hown rfl rfl rfl rfl (fun k' hk' => view_record _ _ _ ?_) hview hlisted
              ⟨rfl, rfl, rfl, rfl, rfl, rfl, rfl⟩ ?_ (fun _ => ⟨hdone, hd⟩) ⟨?_, hcaller⟩
            · simpa using Ne.symm hk'
            · simp [h1, h4, h5]
            · rw [hview]
              simp [ConnView.stage, h1, h2, h3, h4, h5]
  · obtain ⟨hstage, hcaller⟩ := hop
    simp only [ConnView.stage, Prod.mk.injEq] at hstage
    obtain ⟨h1, h2, h3, h4, h5⟩ := hstage
    simp only [exec] at hex
    rw [closeCh_open h2] at hex
    cases hex
    have hview : view (s.setConn k { s.econn k with
        sendCh := { (s.econn k).sendCh with closed := true } }) k =
        { view s k with sendCh := true } := by
      simp [view]
    refine h.cleans hown rfl rfl rfl rfl (fun k' hk' => view_setConn_of_ne _ _ hk') hview hlisted
      ⟨rfl, rfl, rfl, rfl, rfl, rfl, rfl⟩ hk.cleans hk.cleaning ⟨?_, hcaller⟩
    rw [hview]
    simp [ConnView.stage, h1, h3, h4, h5]
  · obtain ⟨hstage, hcaller⟩ := hop
    simp only [exec] at hex
    split at hex <;> cases hex
    exact h.cleans hown rfl rfl rfl rfl hsame rfl hlisted ⟨rfl, rfl, rfl, rfl, rfl, rfl, rfl⟩
      hk.cleans hk.cleaning ⟨hstage, hcaller⟩
  · obtain ⟨hstage, hcaller⟩ := hop
    simp only [ConnView.stage, Prod.mk.injEq] at hstage
    obtain ⟨h1, h2, h3, h4, h5⟩ := hstage
    simp only [exec] at hex
    rw [closeCh_open h3] at hex
    cases hex
    have hview : view (s.setConn k { s.econn k with
        dataCh := { (s.econn k).dataCh with closed := true } }) k =
        { view s k with dataCh := true } := by
      simp [view]
    refine h.cleans hown rfl rfl rfl rfl (fun k' hk' => view_setConn_of_ne _ _ hk') hview hlisted
      ⟨rfl, rfl, rfl, rfl, rfl, rfl, rfl⟩ hk.cleans hk.cleaning ⟨?_, hcaller⟩
    rw [hview]
    simp [ConnView.stage, h1, h2, h4, h5]
  · obtain ⟨hstage, hcaller⟩ := hop
    simp only [ConnView.stage, Prod.mk.injEq] at hstage
    obtain ⟨h1, h2, h3, h4, h5⟩ := hstage
    simp only [exec] at hex
    cases hex
    have hview : view ({ s with connections := s.connections.erase k.wire }.record (.deleted k)) k =
        { view s k with deletes := (view s k).deletes + 1 } := by
      simp [view]
    refine h.cleans hown rfl rfl rfl rfl (fun k' hk' => ?_) hview (fun id k' hid => ?_)
      ⟨rfl, rfl, rfl, rfl, rfl, rfl, rfl⟩ ?_ hk.cleaning ⟨?_, hcaller⟩
    · exact view_record { s with connections := s.connections.erase k.wire } _ _
        (by simpa using Ne.symm hk')
    · have hid' : (if id = k.wire then none else s.connections.lookup id) = some k' :=
        (GoMap.lookup_erase_if id k.wire s.connections).symm.trans hid
      split at hid'
      · cases hid'
      · next hne =>
          refine ⟨hid', ?_⟩
          rintro rfl
          exact absurd (h.listed id k' hid').1 hne
    · simp [h1, h4, h5]
    · rw [hview]
      simp [ConnView.stage, h1, h2, h3, h4, h5]
  · obtain ⟨hstage, hcaller⟩ := hop
    simp only [ConnView.stage, Prod.mk.injEq] at hstage
    obtain ⟨h1, h2, h3, h4, h5⟩ := hstage
    simp only [exec] at hex
    cases hex
    have hview : view ((s.setConn k { s.econn k with connClosed := true }).record (.connClosed k))
        k = { view s k with closes := (view s k).closes + 1 } := by
      simp [view]
    refine h.cleans hown rfl rfl rfl rfl (fun k' hk' => ?_) hview hlisted
      ⟨rfl, rfl, rfl, rfl, rfl, rfl, rfl⟩ ?_ hk.cleaning ⟨Or.inl ?_, hcaller⟩
    · rw [view_record _ _ _ (by simpa using Ne.symm hk'), view_setConn_of_ne _ _ hk']
    · simp [h1, h4, h5]
    · rw [hview]
      simp [ConnView.stage, h1, h2, h3, h4, h5]

/-- `cleanup`, up to the body of `cleanFunc` and after it. -/
theorem AgentInv.exec_cleanup (h : AgentInv s H) {caller : CleanCaller}
    (hown : ∀ x ∈ op.tokens, H x) (hop : op.Holds s)
    (hkind : op = .cleanup k caller ∨ op = .onceDone k caller)
    (hex : exec s t c op = some (s₁, ops, start)) : Kept s s₁ H op ops start := by
  have hk := h.conn k
  have htok : ∀ x ∈ caller.tokens k, x.1 = k := fun x hx => by rw [CleanCaller.tokens_conn hx]
  rcases hkind with rfl | rfl
  · simp only [exec] at hex
    split at hex
    · next hdone =>
        cases hex
        have hentered : (view s k).entered = true := by
          by_contra hnot
          have hfalse := (hk.fresh (by simpa using hnot)).2
          rw [show (view s k).done = true from hdone] at hfalse
          cases hfalse
        refine Quiet.refl.kept h hown ?_ ?_ (fun k' hk' => ?_) (fun k' hk' => ?_)
          (CleanCaller.returned_holds hop.2) trivial
        · simp [caller.returned_tokens, Pool.startTokens]
        · simp [caller.returned_tokens, Pool.startTokens]
        · exact absurd (CleanCaller.tokens_conn hk') (by simp)
        · have : k' = k := htok _ hk'
          subst this
          exact Or.inr (Or.inl hentered)
    · next hopen =>
        split at hex
        · cases hex
        · next hnot =>
            cases hex
            have hfresh : (view s k).entered = false := by simpa [view] using hnot
            obtain ⟨hstage, hdone⟩ := hk.fresh hfresh
            have hfree : ¬ H (k, .clean) := fun hH => by
              rw [(hk.clean hH).1] at hfresh
              cases hfresh
            have hview : view (s.setConn k { s.econn k with onceEntered := true }) k =
                { view s k with entered := true } := by
              simp [view]
            have hflat : [Op.waitDialDone k caller].flatMap Op.tokens =
                (k, .clean) :: caller.tokens k := by
              simp [Op.tokens]
            refine h.changes hop.1 htok ?_ (fun x hx => ?_) rfl rfl
              (fun k' hk' => view_setConn_of_ne _ _ hk') (fun id k' hid => ?_) ?_
              (Or.inr (by rw [hview]; rfl)) (Or.inr (by rw [hview]; exact ⟨rfl, rfl⟩))
              (fun hd => by rw [hview]; exact ⟨hd, rfl⟩) ?_
            · rw [hflat]
              exact caller.tokens_nodup k
            · rw [hflat] at hx
              rcases List.mem_cons.mp hx with rfl | hx
              · exact ⟨rfl, Or.inr hfree⟩
              · exact ⟨htok x hx, Or.inl hx⟩
            · by_cases hkk : k' = k
              · subst hkk
                rw [hview]
                exact Or.inr ⟨rfl, h.listed id k' hid⟩
              · exact Or.inl ⟨hkk, hid⟩
            · rw [hview, hflat]
              have hle : ∀ r, r ≠ Right.clean → (k, r) ∈ (k, Right.clean) :: caller.tokens k ∨
                  (H (k, r) ∧ (k, r) ∉ caller.tokens k) → H (k, r) := by
                intro r hne hr
                rcases hr with hr | hr
                · rcases List.mem_cons.mp hr with hr | hr
                  · exact absurd (congrArg Prod.snd hr) hne
                  · exact hown _ hr
                · exact hr.1
              exact ⟨fun hr => hk.dial (hle _ (by simp) hr), fun hr => hk.send (hle _ (by simp) hr),
                fun _ => ⟨rfl, hdone⟩, fun _ => Or.inl (Or.inl List.mem_cons_self),
                fun he => Bool.noConfusion he, fun _ => Or.inr rfl, hk.dials, hk.adds, hk.cleans,
                hk.cleaning, hk.done⟩
            · intro o ho
              rw [List.mem_singleton.mp ho]
              refine ⟨?_, hop.2.next (Nat.le_refl _)⟩
              rw [hview]
              exact hstage
  · obtain ⟨hstage, hcaller⟩ := hop
    have hclean : H (k, .clean) := hown _ List.mem_cons_self
    obtain ⟨hentered, hopen⟩ := hk.clean hclean
    simp only [exec] at hex
    cases hex
    have hview : view (s.setConn k { s.econn k with onceDone := true }) k =
        { view s k with done := true } := by
      simp [view]
    have hconn : ∀ x ∈ (Op.onceDone k caller).tokens, x.1 = k := by
      intro x hx
      rcases List.mem_cons.mp hx with rfl | hx
      · rfl
      · exact htok x hx
    refine h.changes (h.made hclean) hconn ?_ ?_ rfl rfl
      (fun k' hk' => view_setConn_of_ne _ _ hk') (fun id k' hid => ?_) ?_
      (Or.inl List.mem_cons_self) (Or.inr (by rw [hview]; exact ⟨rfl, rfl⟩))
      (fun hd => by rw [hview]; exact ⟨hd, rfl⟩)
      (CleanCaller.returned_holds (hcaller.next (Nat.le_refl _)))
    · simp [caller.returned_tokens]
    · simp [caller.returned_tokens]
    · by_cases hkk : k' = k
      · subst hkk
        rw [hview]
        exact Or.inr ⟨rfl, h.listed id k' hid⟩
      · exact Or.inl ⟨hkk, hid⟩
    · rw [hview, caller.returned_tokens]
      refine ⟨fun hr => hk.dial ?_, fun hr => hk.send ?_, fun hr => ?_, fun _ => Or.inr rfl,
        fun he => ?_,
        fun _ => Or.inr hentered, hk.dials, hk.adds, hk.cleans, hk.cleaning, fun _ => ?_⟩
      · exact (hr.resolve_left (by simp)).1
      · exact (hr.resolve_left (by simp)).1
      · exact absurd List.mem_cons_self (hr.resolve_left (by simp)).2
      · rw [show (view s k).entered = false from he] at hentered
        cases hentered
      · rcases hstage with hstage | ⟨h1, h2⟩
        · simp only [ConnView.stage, Prod.mk.injEq] at hstage
          obtain ⟨h1, -, -, h4, h5⟩ := hstage
          exact ⟨(hk.cleaning (by omega)).1, fun _ => ⟨h4, h5⟩⟩
        · refine ⟨h1, fun hd => ?_⟩
          rw [show (view s k).dialed = true from hd] at h2
          cases h2

/-- The dial goroutine sets `conn` and registers the connection. -/
theorem AgentInv.exec_dial (h : AgentInv s H) (hown : ∀ x ∈ op.tokens, H x) (hop : op.Holds s)
    (hkind : (∃ req, op = .netDial k req) ∨ op = .addConn k)
    (hex : exec s t c op = some (s₁, ops, start)) : Kept s s₁ H op ops start := by
  have hk := h.conn k
  have hconn : ∀ x ∈ [(k, Right.dial), (k, Right.send), (k, Right.resp)], x.1 = k := by simp
  -- while `dialDone` is open, `cleanFunc` waits
  have hstage : H (k, .dial) → (view s k).cleans = 0 ∧ (view s k).deletes = 0 ∧
      (view s k).done = false := by
    intro hd
    have hopen := hk.dial hd
    have hcleans : (view s k).cleans = 0 := by
      by_contra hne
      rw [(hk.cleaning (by omega)).1] at hopen
      cases hopen
    refine ⟨hcleans, by have := hk.cleans.2.1; omega, Bool.eq_false_iff.mpr fun hdone => ?_⟩
    rw [(hk.done hdone).1] at hopen
    cases hopen
  rcases hkind with ⟨req, rfl⟩ | rfl
  · have hd : H (k, .dial) := hown _ (by simp [Op.tokens])
    have hr : H (k, .resp) := hown _ (by simp [Op.tokens])
    obtain ⟨h1, h2, h3⟩ := hstage hd
    simp only [exec] at hex
    split at hex <;> cases hex
    · refine Quiet.refl.kept h hown ?_ ?_ ?_ (fun k' hk' => ?_) ?_ trivial
      · simp [Op.tokens, SendCaller.tokens, Pool.startTokens]
      · simp [Op.tokens, SendCaller.tokens, Pool.startTokens]
      · simp [Op.tokens]
      · have : k' = k := hconn _ hk'
        subst this
        exact Or.inr (Or.inr hop)
      · simp [Op.Holds, SendCaller.Holds]
    · have hview : view ((s.setConn k { s.econn k with dialed := true }).record (.dialed k)) k =
          { view s k with dialed := true, dials := (view s k).dials + 1 } := by
        simp [view]
      have hzero : (view s k).dials = 0 := by
        rw [hk.dials, show (view s k).dialed = false from hop]
        rfl
      have hadds := hk.adds
      refine h.changes (h.made hd) hconn ?_ ?_ rfl rfl (fun k' hk' => ?_) (fun id k' hid => ?_) ?_
        (Or.inr (by rw [hview]; rfl)) (Or.inl (by simp [Op.tokens])) (fun hdone => ?_) ?_
      · simp [Op.tokens]
      · simp [Op.tokens]
      · rw [view_record _ _ _ (by simpa using Ne.symm hk'), view_setConn_of_ne _ _ hk']
      · by_cases hkk : k' = k
        · subst hkk
          rw [hview]
          exact Or.inr ⟨rfl, h.listed id k' hid⟩
        · exact Or.inl ⟨hkk, hid⟩
      · rw [hview]
        refine ⟨fun _ => hk.dial hd, fun _ => hk.send (hown _ (by simp [Op.tokens])),
          fun hc => hk.clean ?_,
          fun he => (hk.entered he).imp_left fun hc => Or.inr ⟨hc, by simp [Op.tokens]⟩, hk.fresh,
          fun _ => Or.inl (Or.inl (by simp [Op.tokens])), ?_, ?_, hk.cleans, fun hc => ?_,
          fun hdone => ?_⟩
        · exact (hc.resolve_left (by simp [Op.tokens])).1
        · simp [hzero]
        · show (view s k).adds ≤ (view s k).dials + 1
          omega
        · exact absurd (show 0 < (view s k).cleans from hc) (by omega)
        · rw [show (view s k).done = true from hdone] at h3
          cases h3
      · rw [hk.dial hd] at hdone
        cases hdone
      · intro o ho
        rw [List.mem_singleton.mp ho]
        refine ⟨?_, ?_⟩
        · rw [hview]
        · rw [hview]
          show (view s k).adds = 0
          omega
  · have hd : H (k, .dial) := hown _ (by simp [Op.tokens])
    obtain ⟨h1, h2, h3⟩ := hstage hd
    simp only [exec] at hex
    cases hex
    have hview : view ({ s with connections := s.connections.insert k.wire k }.record (.added k))
        k = { view s k with adds := (view s k).adds + 1 } := by
      simp [view]
    refine h.changes (h.made hd) hconn ?_ ?_ rfl rfl (fun k' hk' => ?_) (fun id k' hid => ?_) ?_
      (Or.inr (by rw [hview]; rfl)) (Or.inl (by simp [Op.tokens])) (fun hdone => ?_) ?_
    · simp [Op.tokens, SendCaller.tokens]
    · simp [Op.tokens, SendCaller.tokens]
    · exact view_record { s with connections := s.connections.insert k.wire k } _ _
        (by simpa using Ne.symm hk')
    · have hid' : (if id = k.wire then some k else s.connections.lookup id) = some k' :=
        (GoMap.lookup_insert_if id k.wire k s.connections).symm.trans hid
      rw [hview]
      split at hid'
      · next heq =>
          injection hid' with hid'
          exact Or.inr ⟨hid'.symm, heq, by simp [hop.2], h2⟩
      · by_cases hkk : k' = k
        · subst hkk
          have hadds := (h.listed id k' hid').2.1
          rw [hop.2] at hadds
          cases hadds
        · exact Or.inl ⟨hkk, hid'⟩
    · rw [hview]
      have hdials := hk.dials
      rw [hop.1] at hdials
      refine ⟨fun _ => hk.dial hd, fun _ => hk.send (hown _ (by simp [Op.tokens])),
        fun hc => hk.clean ?_,
        fun he => (hk.entered he).imp_left fun hc => Or.inr ⟨hc, by simp [Op.tokens]⟩, hk.fresh,
        fun _ => Or.inl (Or.inl (by simp [Op.tokens, SendCaller.tokens])), hk.dials, ?_, hk.cleans,
        hk.cleaning, hk.done⟩
      · exact (hc.resolve_left (by simp [Op.tokens, SendCaller.tokens])).1
      · show (view s k).adds + 1 ≤ (view s k).dials
        rw [hop.2, hdials]
        simp
    · rw [hk.dial hd] at hdone
      cases hdone
    · simp [Op.Holds, SendCaller.Holds]

/-- `close(dialDone)` and `close(sendDone)`. -/
theorem AgentInv.exec_close (h : AgentInv s H) (hown : ∀ x ∈ op.tokens, H x)
    (hkind : op = .closeDialDone k ∨ op = .closeSendDone k ∨ ∃ dialed, op = .failSendDone k dialed)
    (hex : exec s t c op = some (s₁, ops, start)) : Kept s s₁ H op ops start := by
  have hk := h.conn k
  have hlisted : ∀ {v : ConnView}, v.adds = (view s k).adds → v.deletes = (view s k).deletes →
      ∀ id k', s.connections.lookup id = some k' → (k' ≠ k ∧ s.connections.lookup id = some k') ∨
        (k' = k ∧ id = k.wire ∧ v.adds = 1 ∧ v.deletes = 0) := by
    intro v hadds hdeletes id k' hid
    by_cases hkk : k' = k
    · subst hkk
      rw [hadds, hdeletes]
      exact Or.inr ⟨rfl, h.listed id k' hid⟩
    · exact Or.inl ⟨hkk, hid⟩
  rcases hkind with rfl | rfl | ⟨dialed, rfl⟩
  · have hd : H (k, .dial) := hown _ (by simp [Op.tokens])
    simp only [exec] at hex
    rw [closeCh_open (hk.dial hd)] at hex
    cases hex
    have hview : view (s.setConn k { s.econn k with
        dialDone := { (s.econn k).dialDone with closed := true } }) k =
        { view s k with dialDone := true } := by
      simp [view]
    refine h.changes (h.made hd) (by simp [Op.tokens]) (by simp) (by simp) rfl rfl
      (fun k' hk' => view_setConn_of_ne _ _ hk') (hlisted (by rw [hview]) (by rw [hview])) ?_
      (Or.inr (by rw [hview]; rfl)) (Or.inr (by rw [hview]; exact ⟨rfl, rfl⟩))
      (fun _ => by rw [hview]; exact ⟨rfl, rfl⟩) (by simp)
    rw [hview]
    refine ⟨fun hr => ?_, fun hr => hk.send ?_, fun hr => hk.clean ?_,
      fun he => (hk.entered he).imp_left fun hc => Or.inr ⟨hc, by simp [Op.tokens]⟩, hk.fresh,
      fun hd => (hk.owed hd).imp_left fun hc => Or.inr ⟨hc, by simp [Op.tokens]⟩, hk.dials, hk.adds,
      hk.cleans, fun hc => ⟨rfl, (hk.cleaning hc).2⟩, fun hd => ⟨rfl, (hk.done hd).2⟩⟩
    · exact absurd (hr.resolve_left (by simp)).2 (by simp [Op.tokens])
    · exact (hr.resolve_left (by simp)).1
    · exact (hr.resolve_left (by simp)).1
  · have hd : H (k, .send) := hown _ (by simp [Op.tokens])
    simp only [exec] at hex
    rw [closeCh_open (hk.send hd)] at hex
    cases hex
    have hview : view (s.setConn k { s.econn k with
        sendDone := { (s.econn k).sendDone with closed := true } }) k =
        { view s k with sendDone := true } := by
      simp [view]
    refine h.changes (h.made hd) (by simp [Op.tokens]) (by simp) (by simp) rfl rfl
      (fun k' hk' => view_setConn_of_ne _ _ hk') (hlisted (by rw [hview]) (by rw [hview])) ?_
      (Or.inr (by rw [hview]; rfl)) (Or.inr (by rw [hview]; exact ⟨rfl, rfl⟩))
      (fun hd => by rw [hview]; exact ⟨hd, rfl⟩) (by simp)
    rw [hview]
    refine ⟨fun hr => hk.dial ?_, fun hr => ?_, fun hr => hk.clean ?_,
      fun he => (hk.entered he).imp_left fun hc => Or.inr ⟨hc, by simp [Op.tokens]⟩, hk.fresh,
      fun hd => (hk.owed hd).imp_left fun hc => Or.inr ⟨hc, by simp [Op.tokens]⟩, hk.dials, hk.adds,
      hk.cleans, hk.cleaning, hk.done⟩
    · exact (hr.resolve_left (by simp)).1
    · exact absurd (hr.resolve_left (by simp)).2 (by simp [Op.tokens])
    · exact (hr.resolve_left (by simp)).1
  · have hd : H (k, .send) := hown _ (by cases dialed <;> simp [Op.tokens])
    have hdial : H (k, .dial) := hown _ (by cases dialed <;> simp [Op.tokens])
    simp only [exec] at hex
    rw [closeCh_open (hk.send hd)] at hex
    cases hex
    have hview : view (s.setConn k { s.econn k with
        sendDone := { (s.econn k).sendDone with closed := true } }) k =
        { view s k with sendDone := true } := by
      simp [view]
    refine h.changes (h.made hd) (by cases dialed <;> simp [Op.tokens])
      (by cases dialed <;> simp [Op.tokens]) (by cases dialed <;> simp [Op.tokens]) rfl rfl
      (fun k' hk' => view_setConn_of_ne _ _ hk') (hlisted (by rw [hview]) (by rw [hview])) ?_
      (Or.inr (by rw [hview]; rfl)) (Or.inr (by rw [hview]; exact ⟨rfl, rfl⟩))
      (fun hd => by rw [hview]; exact ⟨hd, rfl⟩) (by cases dialed <;> simp [Op.Holds])
    rw [hview]
    refine ⟨fun _ => hk.dial hdial, fun hr => ?_, fun hr => hk.clean ?_,
      fun he => (hk.entered he).imp_left fun hc =>
        Or.inr ⟨hc, by cases dialed <;> simp [Op.tokens]⟩,
      hk.fresh, fun hd => (hk.owed hd).imp_left fun hc => ?_, hk.dials, hk.adds, hk.cleans,
      hk.cleaning, hk.done⟩
    · cases dialed <;> simp [Op.tokens] at hr
    · cases dialed <;> exact (hr.resolve_left (by simp [Op.tokens])).1
    · cases dialed with
      | false => exact Or.inr ⟨hc, by simp [Op.tokens]⟩
      | true => exact Or.inl (by simp [Op.tokens])

/-- An operation that is followed by one with the same rights. -/
theorem Quiet.next_op (hq : Quiet s s₁) (h : AgentInv s H) (hown : ∀ x ∈ op.tokens, H x)
    (htok : o.tokens = op.tokens) (hnd : op.tokens.Nodup) (ho : o.Holds s₁) :
    Kept s s₁ H op [o] none := by
  have hflat : [o].flatMap Op.tokens ++ Pool.startTokens Op.tokens (none : Option (Tid × List Op)) =
      op.tokens := by
    simp [Pool.startTokens, htok]
  refine hq.kept h hown ?_ (fun x hx => hflat ▸ hx) (fun k hk => ?_) (fun k hk => ?_) ?_ trivial
  · rwa [hflat]
  · rwa [hflat]
  · rw [hflat]
    exact Or.inl hk
  · simpa using ho

/-- `remoteToSendChannel`, `sendChannelToProxy` and `dataChannelToRemote`. -/
theorem AgentInv.exec_pipe (h : AgentInv s H) (hown : ∀ x ∈ op.tokens, H x)
    (hkind : op = .connRead k ∨ (∃ b, op = .sendChSend k b) ∨ op = .sendChRecv k ∨
      op = .drainSendCh k ∨ op = .dataChRecv k ∨ (∃ b, op = .connWrite k b) ∨ op = .drainDataCh k)
    (hex : exec s t c op = some (s₁, ops, start)) : Kept s s₁ H op ops start := by
  have hcleanup : ∀ {s₁ : ClientState}, Quiet s s₁ → op.tokens = [(k, .resp)] →
      Kept s s₁ H op [.cleanup k .reader] none := by
    intro s₁ hq htok
    refine hq.next_op h hown htok.symm (by simp [htok]) ⟨?_, trivial⟩
    rw [hq.next]
    exact h.made (hown (k, .resp) (by simp [htok]))
  have hreadDone : ∀ {s₁ : ClientState}, Quiet s s₁ → op.tokens = [] → Kept s s₁ H op [] none := by
    intro s₁ hq htok
    exact hq.kept h hown (by simp [Pool.startTokens]) (by simp [Pool.startTokens]) (by simp [htok])
      (by simp [htok]) (by simp) trivial
  rcases hkind with rfl | ⟨b, rfl⟩ | rfl | rfl | rfl | ⟨b, rfl⟩ | rfl
  · simp only [exec] at hex
    split at hex
    · split at hex <;> cases hex
      refine Quiet.next_op (.record fun k' => ?_) h hown rfl (by simp [Op.tokens]) trivial
      simp
    · cases hex
      refine hcleanup ?_ rfl
      split
      · exact .refl
      · exact .record fun k' => by simp
  · simp only [exec] at hex
    split at hex
    · split at hex <;> cases hex
      exact hcleanup .refl rfl
    · split at hex
      · cases hex
      · cases hex
        exact hcleanup .refl rfl
      · next hsend =>
          cases hex
          exact (Quiet.setSendCh (GoChan.send_closed hsend)).next_op h hown rfl
            (by simp [Op.tokens]) trivial
  · simp only [exec] at hex
    split at hex
    · cases hex
    · cases hex
      exact Quiet.refl.next_op h hown rfl (by simp [Op.tokens]) trivial
    · next hrecv =>
        cases hex
        exact (Quiet.setSendCh (GoChan.recv_closed hrecv)).next_op h hown rfl (by simp [Op.tokens])
          trivial
  · simp only [exec] at hex
    split at hex
    · cases hex
    · cases hex
      exact Quiet.refl.next_op h hown rfl (by simp [Op.tokens]) trivial
    · next hrecv =>
        cases hex
        exact (Quiet.setSendCh (GoChan.recv_closed hrecv)).next_op h hown rfl (by simp [Op.tokens])
          trivial
  · simp only [exec] at hex
    split at hex
    · cases hex
    · cases hex
      exact hreadDone .refl rfl
    · next hrecv =>
        cases hex
        exact (Quiet.setDataCh (GoChan.recv_closed hrecv)).next_op h hown rfl (by simp [Op.tokens])
          trivial
  · simp only [exec] at hex
    split at hex
    · cases hex
      exact Quiet.refl.next_op h hown rfl (by simp [Op.tokens]) trivial
    · repeat' split at hex
      all_goals cases hex
      all_goals refine Quiet.next_op (.record fun k' => ?_) h hown rfl (by simp [Op.tokens]) trivial
      all_goals simp
  · simp only [exec] at hex
    split at hex
    · cases hex
    · cases hex
      exact hreadDone .refl rfl
    · next hrecv =>
        cases hex
        exact (Quiet.setDataCh (GoChan.recv_closed hrecv)).next_op h hown rfl (by simp [Op.tokens])
          trivial

/-- The dial goroutine hands its rights to the goroutines it starts. -/
theorem AgentInv.exec_start (h : AgentInv s H) (hown : ∀ x ∈ op.tokens, H x)
    (hkind : op = .discardSendCh k ∨ op = .startCleaner k ∨ op = .startReader k ∨
      op = .startSender k ∨
      op = .startWriter k)
    (hex : exec s t c op = some (s₁, ops, start)) : Kept s s₁ H op ops start := by
  rcases hkind with rfl | rfl | rfl | rfl | rfl
  · simp only [exec] at hex
    split at hex
    · next hrecv =>
        cases hex
        exact (Quiet.setSendCh (GoChan.recv_closed hrecv)).next_op h hown rfl (by simp [Op.tokens])
          trivial
    · cases hex
      exact Quiet.refl.next_op h hown rfl (by simp [Op.tokens]) trivial
  all_goals
    simp only [exec] at hex
    cases hex
    refine Quiet.refl.kept h hown ?_ ?_ ?_ ?_ ?_ ?_
  all_goals simp [Op.tokens, CleanCaller.tokens, Pool.startTokens, Op.Holds, CleanCaller.Holds,
    System.StartOk]
  exact h.made (hown (k, .dial) (by simp [Op.tokens]))

theorem AgentInv.listed_made (h : AgentInv s H) {id : ConnectID}
    (hid : s.connections.lookup id = some k) : k ≤ s.nextConnID := by
  refine Nat.le_of_not_lt fun hlt => ?_
  have hadds := (h.listed id k hid).2.1
  rw [(h.unused k hlt).1] at hadds
  cases hadds

/-- A `DIAL_REQ` makes a connection nothing has happened to. -/
theorem AgentInv.dialReq (h : AgentInv s H) {e : EndpointConn} {req : DialRequest} {pkt : Packet}
    (he : e.dialed = false ∧ e.onceEntered = false ∧ e.onceDone = false ∧
      e.dialDone.closed = false ∧ e.sendDone.closed = false ∧ e.sendCh.closed = false ∧
      e.dataCh.closed = false) (hk : k = s.nextConnID + 1) :
    Kept s ({ s with nextConnID := k }.setConn k e) H (.serve pkt) [.serveLoop]
      (some (.dial k, [.netDial k req])) := by
  obtain ⟨hunused, hfree⟩ := h.unused k (by rw [hk]; exact Nat.lt_succ_self _)
  have hsame : ∀ k', view ({ s with nextConnID := k }.setConn k e) k' = view s k' := by
    intro k'
    by_cases hkk : k' = k
    · subst hkk
      have hlog : (view s k').dials = 0 ∧ (view s k').adds = 0 ∧ (view s k').cleans = 0 ∧
          (view s k').deletes = 0 ∧ (view s k').closes = 0 := by
        rw [hunused]
        exact ⟨rfl, rfl, rfl, rfl, rfl⟩
      rw [hunused]
      simp only [view] at hlog ⊢
      simp [ConnView.unused, hlog, he]
    · exact view_setConn_of_ne _ _ hkk
  have htok : [Op.serveLoop].flatMap Op.tokens ++
      Pool.startTokens Op.tokens (some (Tid.dial k, [Op.netDial k req])) =
      [(k, .dial), (k, .send), (k, .resp)] := by
    simp [Op.tokens, Pool.startTokens]
  refine ⟨by rw [htok]; simp, fun x hx => Or.inr ?_,
    ⟨fun k' => ?_, fun k' hk' => ?_, fun id k' hid => ?_,
    h.panic⟩, ⟨?_, fun k' _ => by rw [hsame], fun k' _ => by rw [hsame]; exact ⟨rfl, rfl⟩,
    fun k' hk' => by rw [hsame]; exact ⟨hk', rfl⟩⟩, ?_, ?_⟩
  · rw [htok] at hx
    have hx1 : x.1 = k := by
      simp only [List.mem_cons, List.not_mem_nil, or_false] at hx
      rcases hx with rfl | rfl | rfl <;> rfl
    obtain ⟨k', r⟩ := x
    subst hx1
    exact hfree r
  · rw [hsame]
    by_cases hkk : k' = k
    · subst hkk
      rw [hunused]
      refine ⟨fun _ => rfl, fun _ => rfl, fun hr => ?_, fun he => Bool.noConfusion he,
        fun _ => ⟨rfl, rfl⟩, fun hd => Bool.noConfusion hd, rfl, Nat.le_refl _,
        ⟨Nat.zero_le _, Nat.le_refl _, Nat.le_refl _⟩, fun hc => absurd hc (Nat.lt_irrefl _),
        fun hd => Bool.noConfusion hd⟩
      rw [htok] at hr
      exact absurd (hr.resolve_left (by simp)).1 (hfree _)
    · have hH : (fun r => (k', r) ∈ [Op.serveLoop].flatMap Op.tokens ++
          Pool.startTokens Op.tokens (some (Tid.dial k, [Op.netDial k req])) ∨
          (H (k', r) ∧ (k', r) ∉ (Op.serve pkt).tokens)) = fun r => H (k', r) := by
        funext r
        rw [htok]
        simp [Op.tokens, hkk]
      rw [hH]
      exact h.conn k'
  · rw [hsame]
    have hlt : k < k' := hk'
    obtain ⟨h1, h2⟩ := h.unused k' (Nat.lt_trans (by rw [hk]; exact Nat.lt_succ_self _) hlt)
    refine ⟨h1, fun r hr => ?_⟩
    rw [htok] at hr
    rcases hr with hr | hr
    · simp only [List.mem_cons, Prod.mk.injEq, List.not_mem_nil, or_false] at hr
      have heq : k' = k := by
        rcases hr with hr | hr | hr <;> exact hr.1
      exact Nat.lt_irrefl _ (heq ▸ hlt)
    · exact h2 r hr.1
  · rw [hsame]
    exact h.listed id k' hid
  · show s.nextConnID ≤ k
    rw [hk]
    exact Nat.le_succ _
  · simp [Op.Holds]
  · intro o ho
    rw [List.mem_singleton.mp ho]
    show (view _ k).dialed = false
    rw [hsame, hunused]
    rfl

/-- The `switch` of `Serve`. -/
theorem AgentInv.exec_packet (h : AgentInv s H) {pkt : Packet}
    (hex : exec s t c (.serve pkt) = some (s₁, ops, start)) :
    Kept s s₁ H (.serve pkt) ops start := by
  have hown : ∀ x ∈ (Op.serve pkt).tokens, H x := fun x hx => nomatch hx
  have hpanic : Kept s { s with panic := some .nilPayload } H (.serve pkt) [] none :=
    Quiet.kept ⟨fun _ => rfl, rfl, rfl, Or.inr rfl⟩ h hown (by simp [Pool.startTokens])
      (by simp [Pool.startTokens]) (by simp [Op.tokens]) (by simp [Op.tokens]) (by simp) trivial
  simp only [exec, servePacket, ClientState.get] at hex
  split at hex
  · split at hex <;> cases hex
    · exact hpanic
    · exact h.dialReq ⟨rfl, rfl, rfl, rfl, rfl, rfl, rfl⟩ rfl
  · split at hex
    · cases hex
      exact hpanic
    · split at hex
      · cases hex
        exact Quiet.refl.next_op h hown rfl List.nodup_nil trivial
      · split at hex <;> cases hex
        · refine Quiet.next_op (.record fun k' => ?_) h hown rfl List.nodup_nil trivial
          simp
        · exact Quiet.refl.next_op h hown rfl List.nodup_nil trivial
  · split at hex
    · cases hex
      exact hpanic
    · split at hex <;> cases hex
      · next hid =>
          refine Quiet.next_op (.record fun k' => ?_) h hown rfl List.nodup_nil
            ⟨h.listed_made hid, trivial⟩
          simp
      · exact Quiet.refl.next_op h hown rfl List.nodup_nil trivial
  · cases hex
    exact Quiet.refl.next_op h hown rfl List.nodup_nil trivial

/-- The loop of `Serve` and its end. -/
theorem AgentInv.exec_serve (h : AgentInv s H) (hop : op.Holds s)
    (hkind : op = .serveLoop ∨ op = .recv ∨ op = .recvFailed ∨
      (∃ k b, op = .sendViaDataChannel k b) ∨ op = .list ∨ (∃ rest, op = .cleanupAll rest) ∨
      op = .serveReturn)
    (hex : exec s t c op = some (s₁, ops, start)) : Kept s s₁ H op ops start := by
  rcases hkind with rfl | rfl | rfl | ⟨k, b, rfl⟩ | rfl | ⟨rest, rfl⟩ | rfl
  · simp only [exec] at hex
    cases hex
    split
    · exact Quiet.refl.next_op h (fun x hx => nomatch hx) rfl List.nodup_nil trivial
    · exact Quiet.refl.next_op h (fun x hx => nomatch hx) rfl List.nodup_nil trivial
  · simp only [exec] at hex
    repeat' split at hex
    all_goals cases hex
    · exact Quiet.refl.next_op h (fun x hx => nomatch hx) rfl List.nodup_nil trivial
    · exact Quiet.next_op ⟨fun _ => rfl, rfl, rfl, Or.inl rfl⟩ h (fun x hx => nomatch hx) rfl
        List.nodup_nil trivial
  · simp only [exec] at hex
    cases hex
    split
    · exact Quiet.refl.next_op h (fun x hx => nomatch hx) rfl List.nodup_nil trivial
    · exact Quiet.next_op ⟨fun _ => rfl, rfl, rfl, Or.inl rfl⟩ h (fun x hx => nomatch hx) rfl
        List.nodup_nil trivial
  · simp only [exec] at hex
    split at hex
    · cases hex
    · cases hex
      exact Quiet.refl.next_op h (fun x hx => nomatch hx) rfl List.nodup_nil trivial
    · next hsend =>
        cases hex
        exact (Quiet.setDataCh (GoChan.send_closed hsend)).next_op h (fun x hx => nomatch hx) rfl
          List.nodup_nil trivial
  · simp only [exec] at hex
    cases hex
    refine Quiet.refl.next_op h (fun x hx => nomatch hx) rfl List.nodup_nil fun k hk => ?_
    obtain ⟨id, hid⟩ := GoMap.mem_values_iff.mp hk
    exact h.listed_made hid
  · cases rest with
    | nil =>
        simp only [exec] at hex
        cases hex
        exact Quiet.refl.next_op h (fun x hx => nomatch hx) rfl List.nodup_nil trivial
    | cons k rest =>
        simp only [exec] at hex
        split at hex <;> cases hex
        next hpick =>
          refine Quiet.refl.next_op h (fun x hx => nomatch hx) rfl List.nodup_nil
            ⟨?_, fun k' hk' => ?_⟩
          · exact hop _ (List.mem_of_getElem? hpick)
          · exact hop _ (List.mem_of_mem_eraseIdx hk')
  · simp only [exec] at hex
    cases hex
    exact Quiet.kept ⟨fun _ => rfl, rfl, rfl, Or.inl rfl⟩ h (fun x hx => nomatch hx)
      (by simp [Pool.startTokens]) (by simp [Pool.startTokens]) (by simp [Op.tokens])
      (by simp [Op.tokens]) (by simp) trivial

theorem AgentInv.exec (h : AgentInv s H) (hown : ∀ x ∈ op.tokens, H x) (hop : op.Holds s)
    (hex : Client.exec s t c op = some (s₁, ops, start)) : Kept s s₁ H op ops start := by
  cases op with
  | serveLoop => exact h.exec_serve hop (by simp) hex
  | recv => exact h.exec_serve hop (by simp) hex
  | recvFailed => exact h.exec_serve hop (by simp) hex
  | serve pkt => exact h.exec_packet hex
  | sendViaDataChannel k b => exact h.exec_serve hop (by simp) hex
  | list => exact h.exec_serve hop (by simp) hex
  | cleanupAll rest => exact h.exec_serve hop (by simp) hex
  | serveReturn => exact h.exec_serve hop (by simp) hex
  | send pkt caller => exact h.exec_send hown hop (by simp) hex
  | streamSend pkt caller b => exact h.exec_send hown hop (by simp) hex
  | removeClient caller => exact h.exec_send hown hop (by simp) hex
  | sendReturn caller ok => exact h.exec_send hown hop (by simp) hex
  | netDial k req => exact h.exec_dial hown hop (Or.inl ⟨req, rfl⟩) hex
  | addConn k => exact h.exec_dial hown hop (Or.inr rfl) hex
  | failSendDone k dialed => exact h.exec_close hown (Or.inr (Or.inr ⟨dialed, rfl⟩)) hex
  | discardSendCh k => exact h.exec_start hown (Or.inl rfl) hex
  | startCleaner k => exact h.exec_start hown (Or.inr (Or.inl rfl)) hex
  | startReader k => exact h.exec_start hown (Or.inr (Or.inr (Or.inl rfl))) hex
  | startSender k => exact h.exec_start hown (Or.inr (Or.inr (Or.inr (Or.inl rfl)))) hex
  | startWriter k => exact h.exec_start hown (Or.inr (Or.inr (Or.inr (Or.inr rfl)))) hex
  | closeDialDone k => exact h.exec_close hown (Or.inl rfl) hex
  | cleanup k caller => exact h.exec_cleanup hown hop (Or.inl rfl) hex
  | waitDialDone k caller => exact h.exec_cleanFunc hown hop (Or.inl rfl) hex
  | closeSendCh k caller => exact h.exec_cleanFunc hown hop (Or.inr (Or.inl rfl)) hex
  | waitSendDone k caller => exact h.exec_cleanFunc hown hop (Or.inr (Or.inr (Or.inl rfl))) hex
  | closeDataCh k caller =>
      exact h.exec_cleanFunc hown hop (Or.inr (Or.inr (Or.inr (Or.inl rfl)))) hex
  | deleteConn k caller =>
      exact h.exec_cleanFunc hown hop (Or.inr (Or.inr (Or.inr (Or.inr (Or.inl rfl))))) hex
  | connClose k caller =>
      exact h.exec_cleanFunc hown hop (Or.inr (Or.inr (Or.inr (Or.inr (Or.inr rfl))))) hex
  | onceDone k caller => exact h.exec_cleanup hown hop (Or.inr rfl) hex
  | connRead k => exact h.exec_pipe (k := k) hown (by simp) hex
  | sendChSend k b => exact h.exec_pipe (k := k) hown (by simp) hex
  | sendChRecv k => exact h.exec_pipe (k := k) hown (by simp) hex
  | drainSendCh k => exact h.exec_pipe (k := k) hown (by simp) hex
  | closeSendDone k => exact h.exec_close hown (Or.inr (Or.inl rfl)) hex
  | dataChRecv k => exact h.exec_pipe (k := k) hown (by simp) hex
  | connWrite k b => exact h.exec_pipe (k := k) hown (by simp) hex
  | drainDataCh k => exact h.exec_pipe (k := k) hown (by simp) hex

end Steps

theorem arrive_quiet {s s₁ : ClientState} {a : ClientAction} {start : Option (Tid × List Op)}
    (harr : arrive s a = some (s₁, start)) :
    Quiet s s₁ ∧ Pool.startTokens Op.tokens start = [] ∧
      System.StartOk (fun _ o => Op.Holds s₁ o) start := by
  have hquiet : ∀ {s₁ : ClientState}, s₁.econn = s.econn → s₁.log = s.log →
      s₁.connections = s.connections → s₁.nextConnID = s.nextConnID → s₁.panic = s.panic →
      Quiet s s₁ := by
    intro s₁ h1 h2 h3 h4 h5
    refine ⟨fun k => ?_, h3, h4, Or.inl h5⟩
    simp [view, h1, h2]
  cases a <;> simp only [Client.arrive] at harr <;> repeat' split at harr
  all_goals cases harr
  all_goals refine ⟨hquiet rfl rfl rfl rfl rfl, ?_, ?_⟩
  all_goals first
    | exact trivial
    | rfl
    | simp [System.StartOk, Op.Holds, SendCaller.Holds]

/-- In every state reached, the rights are exclusive, and what they stand for holds. -/
theorem agent_invariant {xfrChannelSize fromServer toServer : Nat}
    {s : System.State ClientState Tid Op}
    (h : Reach client.step System.unrestricted
      (newAgentClient xfrChannelSize fromServer toServer) s) :
    Pool.Exclusive Op.tokens s.threads ∧ AgentInv s.shared (Pool.Held Op.tokens s.threads) ∧
      Pool.All (fun _ o => o.Holds s.shared) s.threads := by
  have htok : ∀ t,
      ((newAgentClient xfrChannelSize fromServer toServer).threads t).flatMap Op.tokens = [] := by
    intro t
    by_cases ht : t = .serve
    · simp [newAgentClient, ht, Op.tokens]
    · simp [newAgentClient, ht]
  have hheld : ∀ x, ¬ Pool.Held Op.tokens
      (newAgentClient xfrChannelSize fromServer toServer).threads x := by
    intro x hx
    obtain ⟨t, ht⟩ := Pool.held_iff.mp hx
    rw [htok] at ht
    cases ht
  refine System.invariant_tokens Op.tokens AgentInv (fun s _ o => o.Holds s) ?_ ?_ ?_ ?_ ?_ h
  · refine ⟨fun t => ?_, fun t t' _ => ?_⟩
    · rw [htok]
      exact List.nodup_nil
    · rw [htok]
      exact List.disjoint_nil_left _
  · refine ⟨fun k => ?_, fun k _ => ⟨rfl, fun r => hheld _⟩, fun id k hid => (nomatch hid),
      fun _ hp => (nomatch hp)⟩
    exact ⟨fun _ => rfl, fun _ => rfl, fun hr => absurd hr (hheld _), fun he => Bool.noConfusion he,
      fun _ => ⟨rfl, rfl⟩, fun hd => Bool.noConfusion hd, rfl, Nat.le_refl _,
      ⟨Nat.zero_le _, Nat.le_refl _, Nat.le_refl _⟩, fun hc => absurd hc (Nat.lt_irrefl _),
      fun hd => Bool.noConfusion hd⟩
  · intro t o ho
    by_cases ht : t = .serve
    · simp only [newAgentClient, ht, if_pos, List.mem_singleton] at ho
      rw [ho]
      trivial
    · simp [newAgentClient, ht] at ho
  · intro s H t c o s₁ ops start _ _ hJ hP hown _ hex
    have hkept := hJ.exec hown hP hex
    exact ⟨⟨hkept.nodup, hkept.free⟩, hkept.inv,
      fun _ o' htok hP' => hkept.change.holds (fun x hx => (htok x hx).2) hP', hkept.holds,
      hkept.started⟩
  · intro s H a s₁ start _ hJ _ harr
    obtain ⟨hq, htok, hstart⟩ := arrive_quiet harr
    have hchange : Change s.shared s₁ [] := hq.change
    rw [htok]
    refine ⟨⟨List.nodup_nil, fun _ hx => nomatch hx⟩, ?_, fun _ o ho => hchange.holds (by simp) ho,
      hstart⟩
    refine hq.inv hJ (fun x hx => ?_) (fun k hr => Or.inr hr) fun k hr => Or.inl (Or.inr hr)
    exact hx.resolve_left (by simp)

/-- Nobody closes a channel of a connection twice; `cleanFunc` gets past
`dialDone` once, and after it was closed; `connManager` has a connection after
its dial and until it is deleted; and when `Serve` and its goroutines are done,
every connection that was dialed has been closed, once. -/
theorem endpoint_released_once {xfrChannelSize fromServer toServer : Nat}
    {s : System.State ClientState Tid Op} {ok : System.State ClientState Tid Op →
      System.Action Tid ClientAction Choice → Prop}
    (h : Reach client.step ok (newAgentClient xfrChannelSize fromServer toServer) s) :
    (∀ reason, s.shared.panic ≠ some (.chan reason)) ∧
    (∀ k, s.shared.log.count (.cleaning k) ≤ 1 ∧
      (.cleaning k ∈ s.shared.log → (s.shared.econn k).dialDone.closed = true)) ∧
    (∀ id k, s.shared.connections.lookup id = some k →
      .dialed k ∈ s.shared.log ∧ .deleted k ∉ s.shared.log) ∧
    (∀ k, s.shared.log.count (.deleted k) ≤ 1 ∧ s.shared.log.count (.connClosed k) ≤ 1) ∧
    (s.shared.served = true → (∀ t, s.threads t = []) →
      s.shared.connections = ∅ ∧
      ∀ k, .dialed k ∈ s.shared.log → s.shared.log.count (.connClosed k) = 1) := by
  obtain ⟨-, hinv, -⟩ := agent_invariant (System.reach_allowed h)
  refine ⟨hinv.panic, fun k => ?_, fun id k hid => ?_, fun k => ?_, fun _ hidle => ?_⟩
  · have hk := hinv.conn k
    exact ⟨hk.cleans.1, fun hin => (hk.cleaning (List.count_pos_iff.mpr hin)).1⟩
  · obtain ⟨-, hadds, hdeletes⟩ := hinv.listed id k hid
    have hdials := (hinv.conn k).adds
    refine ⟨List.count_pos_iff.mp ?_, List.count_eq_zero.mp hdeletes⟩
    rw [hadds] at hdials
    exact hdials
  · obtain ⟨h1, h2, h3⟩ := (hinv.conn k).cleans
    exact ⟨Nat.le_trans h2 h1, Nat.le_trans h3 h1⟩
  · -- nobody holds a right, so `cleanFunc` has run for every connection that was dialed
    have hheld : ∀ x, ¬ Pool.Held Op.tokens s.threads x := by
      rintro x ⟨t, o, ho, -⟩
      rw [hidle] at ho
      cases ho
    have hdone : ∀ k, (view s.shared k).dialed = true →
        (view s.shared k).deletes = 1 ∧ (view s.shared k).closes = 1 := by
      intro k hd
      have hk := hinv.conn k
      have hentered := (hk.owed hd).resolve_left (hheld _)
      exact (hk.done ((hk.entered hentered).resolve_left (hheld _))).2 hd
    have hdialed : ∀ k, 0 < (view s.shared k).dials → (view s.shared k).dialed = true := by
      intro k hpos
      rw [(hinv.conn k).dials] at hpos
      by_contra hnot
      rw [if_neg hnot] at hpos
      exact Nat.lt_irrefl _ hpos
    refine ⟨AList.ext_iff.mpr ?_, fun k hk => (hdone k (hdialed k (List.count_pos_iff.mpr hk))).2⟩
    refine List.eq_nil_iff_forall_not_mem.mpr fun e he => ?_
    obtain ⟨-, hadds, hdeletes⟩ := hinv.listed e.1 e.2 (GoMap.lookup_eq_some_iff.mpr he)
    have hpos := (hinv.conn e.2).adds
    rw [hadds] at hpos
    rw [(hdone e.2 (hdialed e.2 hpos)).1] at hdeletes
    cases hdeletes

/-! ## A run -/

/-- The connection a goroutine belongs to. -/
def Tid.conn : Tid → ConnID
  | .serve | .drain => 0
  | .dial k | .reader k | .sender k | .writer k | .cleaner k => k

theorem exec_started {s s₁ : ClientState} {t t' : Tid} {c : Choice} {op : Op} {ops ops' : List Op}
    (hex : exec s t c op = some (s₁, ops, some (t', ops'))) :
    t'.conn ≤ s₁.nextConnID ∨ (t'.conn, .dial) ∈ op.tokens := by
  cases op with
  | serve pkt =>
      simp only [exec, servePacket] at hex
      repeat' split at hex
      all_goals cases hex
      exact Or.inl (Nat.le_refl _)
  | startCleaner k =>
      cases hex
      exact Or.inr List.mem_cons_self
  | startReader k =>
      cases hex
      exact Or.inr List.mem_cons_self
  | startSender k =>
      cases hex
      exact Or.inr List.mem_cons_self
  | startWriter k =>
      cases hex
      exact Or.inr List.mem_cons_self
  | cleanupAll rest =>
      cases rest <;> simp only [exec] at hex <;> repeat' split at hex
      all_goals cases hex
  | _ =>
      simp only [exec, closeCh] at hex
      repeat' split at hex
      all_goals cases hex

/-- A connection that was not made has no goroutines. -/
theorem unused_idle {xfrChannelSize fromServer toServer : Nat} {s : System.State ClientState Tid Op}
    (h : Reach client.step System.unrestricted
      (newAgentClient xfrChannelSize fromServer toServer) s) {t : Tid}
    (ht : s.shared.nextConnID < t.conn) : s.threads t = [] := by
  have hall := (System.invariant (fun _ => True) (fun s t _ => t.conn ≤ s.nextConnID)
    trivial ?_ ?_ ?_ h).2
  · refine List.eq_nil_iff_forall_not_mem.mpr fun o ho => ?_
    exact absurd (hall t o ho) (Nat.not_le.mpr ht)
  · intro t o ho
    by_cases heq : t = .serve
    · rw [heq]
      exact Nat.zero_le _
    · simp [newAgentClient, heq] at ho
  · intro s a s₁ start _ _ _ harr
    have hnext := (arrive_quiet harr).1.next
    refine ⟨trivial, fun t o ho => hnext ▸ ho, ?_⟩
    cases a <;> simp only [client, arrive] at harr <;> repeat' split at harr
    all_goals cases harr
    all_goals first
      | trivial
      | exact fun _ _ => Nat.zero_le _
  · intro s t c o rest s₁ ops start hr _ ht hle _ hex
    obtain ⟨-, hinv, hholds⟩ := agent_invariant hr
    have ho : o ∈ s.threads t := by
      rw [ht]
      exact List.mem_cons_self
    have hown : ∀ x ∈ o.tokens, Pool.Held Op.tokens s.threads x := fun x hx => ⟨t, o, ho, hx⟩
    have hnext := (hinv.exec hown (hholds t o ho) hex).change.next
    refine ⟨trivial, fun t o ho => Nat.le_trans ho hnext, fun _ _ => Nat.le_trans hle hnext, ?_⟩
    cases start with
    | none => trivial
    | some st =>
        intro o' _
        rcases exec_started hex with hst | hst
        · exact hst
        · exact Nat.le_trans (hinv.made (hown _ hst)) hnext

/-- A connection is dialed and closed by a `CLOSE_REQ`, then the stream ends. -/
def closedRun : List (System.Action Tid ClientAction Choice) :=
  let dialReq : Packet := .ofDialRequest { protocol := "tcp", address := "a:1", random := 7 }
  let closeReq : Packet := .newCloseRequest 1
  List.flatten
    [[.arrive (.deliver dialReq)], List.replicate 3 (.run .serve {}),
      List.replicate 9 (.run (.dial 1) {}), [.arrive (.deliver closeReq)],
      List.replicate 6 (.run .serve {}), List.replicate 3 (.run (.sender 1) {}),
      List.replicate 8 (.run .serve {}), List.replicate 2 (.run (.reader 1) {}),
      [.run (.writer 1) {}, .run .serve {}, .run .serve { recvErr := true }],
      List.replicate 4 (.run .serve {})]

theorem endpoint_released_once_closed :
    ∃ s : System.State ClientState Tid Op,
      Reach client.step anyStep (newAgentClient 1 1 4) s ∧ s.shared.served = true ∧
      .dialed 1 ∈ s.shared.log ∧ s.shared.connections = ∅ ∧
      s.shared.log.count (.connClosed 1) = 1 := by
  obtain ⟨s, hs, hend⟩ : ∃ s : System.State ClientState Tid Op,
      run client.step (newAgentClient 1 1 4) closedRun = some s ∧
      decide (s.shared.served = true ∧ Event.dialed 1 ∈ s.shared.log ∧ s.shared.nextConnID = 1 ∧
        ∀ k ∈ ([0, 1] : List ConnID), ∀ t ∈ [Tid.serve, .drain, .dial k, .reader k, .sender k,
          .writer k, .cleaner k], s.threads t = []) = true :=
    run_any (by decide)
  obtain ⟨hserved, hdialed, hnext, hidle⟩ := of_decide_eq_true hend
  have hr := reach_of_run_any hs
  obtain ⟨-, -, -, -, hdone⟩ := endpoint_released_once hr
  have hall : ∀ t, s.threads t = [] := by
    intro t
    by_cases ht : s.shared.nextConnID < t.conn
    · exact unused_idle (System.reach_allowed hr) ht
    · have hk : t.conn ∈ ([0, 1] : List ConnID) := by
        rw [hnext] at ht
        rcases Nat.le_one_iff_eq_zero_or_eq_one.mp (Nat.le_of_not_lt ht) with hk | hk <;> simp [hk]
      refine hidle t.conn hk t ?_
      cases t <;> simp [Tid.conn]
  obtain ⟨hempty, hclosed⟩ := hdone hserved hall
  exact ⟨s, hr, hserved, hdialed, hempty, hclosed 1 hdialed⟩

end Konnectivity.Agent.Client
