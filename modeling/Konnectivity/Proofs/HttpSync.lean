import Konnectivity.Proofs.HttpWrites

/-!
# Writes without a queue

Without a queue `Send` writes to the socket itself, under the send lock. As
long as nothing but a `CLOSE_RSP` ends the stream, the socket has got what was
passed before the first one.
-/

namespace Konnectivity.Server.HttpConnect

open Lib

/-- All that was passed was written but for the rest of a packet, which a
closed socket does not take. -/
def Settled (s : StreamState) (rest : Bytes) : Prop :=
  (.closeRsp ∈ passed s ↔ s.socketClosed = true) ∧
    written s ++ (if s.socketClosed then [] else rest) = connectEstablished ++ syncBytes (passed s)

/-- A `CLOSE_RSP` was passed, and the socket is yet to be closed. -/
def Ended (s : StreamState) : Prop :=
  .closeRsp ∈ passed s ∧ written s = connectEstablished ++ syncBytes (passed s)

structure SyncInv (s : StreamState) (H : Token → Prop) : Prop where
  size : s.queueSize = 0
  unconnected : s.connected = false → passed s = []
  closes : s.onceEntered = true → Clean s.log → .closeRsp ∈ passed s
  idle : ¬ H .lock → Clean s.log → s.connected = true → Settled s []

def CloseCaller.Synced (s : StreamState) : CloseCaller → Prop
  | .nobody | .handshake => ¬ Clean s.log
  | .writer => False
  | .send _ => s.connected = true ∧ (Clean s.log → Ended s)

/-- What an operation of a stream without a queue knows. -/
def Op.Synced (s : StreamState) : Op → Prop
  | .sendDialResponse => s.connected = false ∧ written s = []
  | .connWrite b .handshake => s.connected = false ∧ written s ++ b = connectEstablished
  | .startWriter | .closeConnected => s.connected = false ∧ written s = connectEstablished
  | .connWrite b (.sync _) | .streamSend (.data b) _ =>
      s.connected = true ∧ (Clean s.log → Settled s b)
  | .streamSend .closeRsp _ => s.connected = true ∧ (Clean s.log → Ended s)
  | .connWrite _ .queued | .writerLoop | .writerSelect | .enqueueWrite _ _ | .tryEnqueue _ _ |
    .blockedEnqueue _ _ => False
  | .dispatch | .route _ | .dispatchExit => s.connected = true ∨ s.established = false
  | .send _ _ => s.connected = true
  | .unlock k => (k = .dispatch → s.connected = true) ∧ (Clean s.log → Settled s [])
  | .close caller | .closeClosed caller | .connClose caller | .cancel caller | .onceDone caller =>
      caller.Synced s
  | _ => True

section Steps

variable {s s₁ : StreamState} {H : Token → Prop} {t : Tid} {c : Choice} {op o : Op}
  {ops : List Op} {start : Option (Tid × List Op)}

theorem exec_socket (hex : exec s t c op = some (s₁, ops, start)) :
    s₁.socketClosed = s.socketClosed ∨ ∃ caller, op = .connClose caller := by
  cases op with
  | connClose caller => exact Or.inr ⟨caller, rfl⟩
  | tryEnqueue pkt k =>
      simp only [exec] at hex
      split at hex
      · split at hex <;> cases hex
        exact Or.inl rfl
      · obtain ⟨s', henq, heq⟩ := Option.map_eq_some_iff.mp hex
        cases heq
        exact Or.inl (enqueue_frame henq).closed.2
  | blockedEnqueue pkt k =>
      simp only [exec] at hex
      obtain ⟨s', henq, heq⟩ := Option.map_eq_some_iff.mp hex
      cases heq
      exact Or.inl (enqueue_frame henq).closed.2
  | _ =>
      simp only [exec] at hex
      repeat' split at hex
      all_goals cases hex
      all_goals exact Or.inl rfl

theorem Settled.mono {rest : Bytes} (h : Settled s rest) (hp : passed s₁ = passed s)
    (hw : written s₁ = written s) (hc : s₁.socketClosed = s.socketClosed) : Settled s₁ rest := by
  rw [Settled, hp, hw, hc]
  exact h

theorem Ended.mono (h : Ended s) (hp : passed s₁ = passed s) (hw : written s₁ = written s) :
    Ended s₁ := by
  rw [Ended, hp, hw]
  exact h

/-- What an operation knows is kept by operations with other tokens. -/
theorem Effect.synced (he : Effect op s s₁) (hop : op.Synced s)
    (hsocket : s₁.socketClosed = s.socketClosed ∨ ∃ caller, op = .connClose caller)
    (hlock : .lock ∈ o.tokens → passed s₁ = passed s) (htok : ∀ k ∈ o.tokens, k ∉ op.tokens)
    (h : o.Synced s) : o.Synced s₁ := by
  have hconn : .dispatcher ∈ o.tokens → s₁.connected = s.connected := by
    intro hk
    refine he.connected.resolve_right ?_
    rintro ⟨rfl, -⟩
    exact htok _ hk (by simp [Op.tokens])
  have hconn' : s.connected = true → s₁.connected = true := by
    rcases he.connected with h | ⟨-, h⟩
    · rw [h]
      exact id
    · exact fun _ => h
  have hwrote : .lock ∈ o.tokens → written s₁ = written s := by
    intro hk
    refine he.bytes.resolve_right ?_
    rintro ⟨b, caller, rfl, -⟩
    rcases caller with _ | k | _
    · exact htok _ hk (by simp [Op.tokens, WriteCaller.tokens])
    · exact htok _ hk (by simp [Op.tokens, WriteCaller.tokens])
    · exact hop
  have hopen : .lock ∈ o.tokens → Clean s₁.log → s₁.socketClosed = s.socketClosed := by
    intro hk hclean
    refine hsocket.resolve_right ?_
    rintro ⟨caller, rfl⟩
    cases caller with
    | nobody => exact hop (hclean.mono he.log)
    | handshake => exact hop (hclean.mono he.log)
    | writer => exact hop
    | send k => exact htok _ hk (by simp [Op.tokens, CloseCaller.tokens])
  have hsettled : ∀ b, .lock ∈ o.tokens → (Clean s.log → Settled s b) → Clean s₁.log →
      Settled s₁ b :=
    fun b hk hs hclean => (hs (hclean.mono he.log)).mono (hlock hk) (hwrote hk) (hopen hk hclean)
  have hended : .lock ∈ o.tokens → (Clean s.log → Ended s) → Clean s₁.log → Ended s₁ :=
    fun hk hs hclean => (hs (hclean.mono he.log)).mono (hlock hk) (hwrote hk)
  have hclose : ∀ caller, (.lock ∈ CloseCaller.tokens caller → .lock ∈ o.tokens) →
      caller.Synced s → caller.Synced s₁ := by
    intro caller hk hc
    cases caller with
    | nobody => exact fun hclean => hc (hclean.mono he.log)
    | handshake => exact fun hclean => hc (hclean.mono he.log)
    | writer => exact hc
    | send k => exact ⟨hconn' hc.1, hended (hk List.mem_cons_self) hc.2⟩
  cases o with
  | sendDialResponse =>
      refine ⟨(hconn (by simp [Op.tokens])).trans h.1, ?_⟩
      refine (he.bytes.resolve_right ?_).trans h.2
      rintro ⟨b, caller, rfl, -⟩
      rcases caller with _ | k | _
      · exact htok .dispatcher (by simp [Op.tokens]) (by simp [Op.tokens, WriteCaller.tokens])
      · have hc := hop.1
        rw [h.1] at hc
        cases hc
      · exact hop
  | startWriter =>
      exact ⟨(hconn (by simp [Op.tokens])).trans h.1, (hwrote List.mem_cons_self).trans h.2⟩
  | closeConnected =>
      exact ⟨(hconn (by simp [Op.tokens])).trans h.1, (hwrote List.mem_cons_self).trans h.2⟩
  | connWrite b caller =>
      rcases caller with _ | k | _
      · refine ⟨(hconn (by simp [Op.tokens, WriteCaller.tokens])).trans h.1, ?_⟩
        rw [hwrote List.mem_cons_self]
        exact h.2
      · exact ⟨hconn' h.1, hsettled b List.mem_cons_self h.2⟩
      · exact h
  | streamSend pkt k =>
      cases pkt with
      | data b => exact ⟨hconn' h.1, hsettled b List.mem_cons_self h.2⟩
      | closeRsp => exact ⟨hconn' h.1, hended List.mem_cons_self h.2⟩
  | dispatch => exact h.imp hconn' he.established
  | route pkt => exact h.imp hconn' he.established
  | dispatchExit => exact h.imp hconn' he.established
  | send pkt k => exact hconn' h
  | unlock k => exact ⟨fun hk => hconn' (h.1 hk), hsettled [] List.mem_cons_self h.2⟩
  | close caller => exact hclose caller id h
  | closeClosed caller => exact hclose caller (List.mem_cons_of_mem _) h
  | connClose caller => exact hclose caller (List.mem_cons_of_mem _) h
  | cancel caller => exact hclose caller (List.mem_cons_of_mem _) h
  | onceDone caller => exact hclose caller (List.mem_cons_of_mem _) h
  | writerLoop => exact h
  | writerSelect => exact h
  | enqueueWrite pkt k => exact h
  | tryEnqueue pkt k => exact h
  | blockedEnqueue pkt k => exact h
  | _ => trivial

/-- What a step without a queue leaves behind. -/
structure SyncKept (s s₁ : StreamState) (H : Token → Prop) (op : Op) (ops : List Op)
    (start : Option (Tid × List Op)) : Prop where
  inv : SyncInv s₁ fun k => k ∈ ops.flatMap Op.tokens ++ Pool.startTokens Op.tokens start ∨
    (H k ∧ k ∉ op.tokens)
  synced : ∀ o ∈ ops, o.Synced s₁
  started : System.StartOk (fun _ o => Op.Synced s₁ o) start

theorem SyncInv.still (h : SyncInv s H) (he : Effect op s s₁) (hop : op.moves = false)
    {H' : Token → Prop}
    (hidle : ¬ H' .lock → Clean s₁.log → s.connected = true → Settled s₁ [])
    (hcloses : s₁.onceEntered = true → s.onceEntered = true ∨
      (Clean s.log → .closeRsp ∈ passed s)) :
    SyncInv s₁ H' := by
  obtain ⟨-, -, -, h4, -, h6⟩ := he.still hop
  refine ⟨he.size.trans h.size, ?_, fun hent hclean => ?_, ?_⟩
  · rw [h4, h6]
    exact h.unconnected
  · rw [h4]
    rcases hcloses hent with hent | hwhy
    · exact h.closes hent (hclean.mono he.log)
    · exact hwhy (hclean.mono he.log)
  · rw [h6]
    exact hidle

/-- An operation that moves nothing and leaves the lock with whoever has it. -/
theorem SyncInv.quiet (h : SyncInv s H) (he : Effect op s s₁) (hop : op.moves = false)
    (hlock : .lock ∈ op.tokens → .lock ∈ ops.flatMap Op.tokens)
    (hent : s₁.onceEntered = s.onceEntered) (hsocket : s₁.socketClosed = s.socketClosed) :
    SyncInv s₁ fun k => k ∈ ops.flatMap Op.tokens ++ Pool.startTokens Op.tokens start ∨
      (H k ∧ k ∉ op.tokens) := by
  obtain ⟨h1, -, -, h4, -, -⟩ := he.still hop
  refine h.still he hop (fun hl hclean hconn => ?_) fun hc => Or.inl (hent ▸ hc)
  refine (h.idle (fun hH => hl ?_) (hclean.mono he.log) hconn).mono h4 h1 hsocket
  by_cases hk : .lock ∈ op.tokens
  · exact Or.inl (List.mem_append_left _ (hlock hk))
  · exact Or.inr ⟨hH, hk⟩

theorem SyncInv.open_unconnected (h : SyncInv s H) (hS : StreamInv s H)
    (hconn : s.connected = false) (hclean : Clean s.log) : s.socketClosed = false := by
  have hent : s.onceEntered = false := by
    refine Bool.eq_false_iff.mpr fun hent => ?_
    have hin := h.closes hent hclean
    rw [h.unconnected hconn] at hin
    cases hin
  exact (hS.fresh hent).2.2

theorem Settled.passing {t : Tid} {pkt : FrontendPacket} (h : Settled s []) {s' : StreamState}
    (hs' : s' = { s with sendLock := some t }.record (.passed t pkt)) :
    (∀ b, pkt = .data b → Settled s' b) ∧ (pkt = .closeRsp → Ended s') := by
  obtain ⟨hiff, hbytes⟩ := h
  obtain ⟨h1, -, -, h4⟩ := send_record s t pkt
  rw [← hs'] at h1 h4
  have hsocket : s'.socketClosed = s.socketClosed := by rw [hs']; rfl
  have hwritten : written s = connectEstablished ++ syncBytes (passed s) := by
    rw [← hbytes, ite_self, List.append_nil]
  refine ⟨?_, ?_⟩
  · rintro b rfl
    refine ⟨?_, ?_⟩
    · rw [h4, hsocket, ← hiff]
      simp
    · rw [h1, h4, hsocket, hwritten]
      split
      · next hc => rw [syncBytes_closed (hiff.mpr hc), List.append_nil]
      · next hc => rw [syncBytes_append fun hin => hc (hiff.mp hin), List.append_assoc, syncBytes,
          syncBytes, List.append_nil]
  · rintro rfl
    refine ⟨?_, ?_⟩
    · rw [h4]
      exact List.mem_append_right _ List.mem_cons_self
    · rw [h1, h4, hwritten]
      by_cases hc : .closeRsp ∈ passed s
      · rw [syncBytes_closed hc]
      · rw [syncBytes_append hc, syncBytes, List.append_nil]

theorem SyncInv.wrote (h : SyncInv s H) {b : Bytes} {H' : Token → Prop} (hlock : H' .lock) :
    SyncInv (s.record (.wrote b)) H' := by
  obtain ⟨-, -, -, h4⟩ := wrote_record s b
  refine ⟨h.size, ?_, fun hent hclean => ?_, fun hl => absurd hlock hl⟩
  · rw [h4]
    exact h.unconnected
  · rw [h4]
    exact h.closes hent (hclean.mono (List.subset_cons_self _ _))

theorem SyncInv.failed (h : SyncInv s H) {closed : Bool} {H' : Token → Prop} (hlock : H' .lock) :
    SyncInv (s.record (.writeFailed closed)) H' := by
  have he : Effect .afterFunc s (s.record (.writeFailed closed)) :=
    effect_quiet (Or.inr ⟨_, rfl, rfl⟩) rfl rfl id id id rfl
  exact h.still he rfl (fun hl => absurd hlock hl) Or.inl

theorem SyncInv.exec_handshake (h : SyncInv s H) (hS : StreamInv s H) {b : Bytes}
    (hop : Op.Synced s (.connWrite b .handshake))
    (hex : exec s t c (.connWrite b .handshake) = some (s₁, ops, start)) :
    SyncKept s s₁ H (.connWrite b .handshake) ops start := by
  obtain ⟨hconn, hbytes⟩ := hop
  simp only [exec] at hex
  repeat' split at hex
  all_goals cases hex
  · next hc =>
      refine ⟨h.failed (Or.inl List.mem_cons_self), fun o ho => ?_, trivial⟩
      rw [List.mem_singleton.mp ho]
      intro hclean
      rw [h.open_unconnected hS hconn (hclean.mono (List.subset_cons_self _ _))] at hc
      cases hc
  · refine ⟨h.failed (Or.inl List.mem_cons_self), fun o ho => ?_, trivial⟩
    rw [List.mem_singleton.mp ho]
    exact fun hclean => hclean.2.2 List.mem_cons_self
  · refine ⟨h.wrote (Or.inl List.mem_cons_self), fun o ho => ?_, trivial⟩
    rw [List.mem_singleton.mp ho]
    exact ⟨hconn, (wrote_record s b).1.trans hbytes⟩
  · refine ⟨h.wrote (Or.inl List.mem_cons_self), fun o ho => ?_, trivial⟩
    rw [List.mem_singleton.mp ho]
    refine ⟨hconn, ?_⟩
    rw [(wrote_record s _).1, List.append_assoc, List.take_append_drop]
    exact hbytes

/-- Some of what is owed goes to an open socket. -/
theorem Settled.wrote {b b' : Bytes} (h : Settled s (b ++ b')) (hopen : ¬ s.socketClosed = true) :
    Settled (s.record (.wrote b)) b' := by
  obtain ⟨h1, -, -, h4⟩ := wrote_record s b
  obtain ⟨hiff, hbytes⟩ := h
  refine ⟨by rw [h4]; exact hiff, ?_⟩
  rw [if_neg hopen, ← List.append_assoc] at hbytes
  rw [h1, h4, if_neg (show ¬ (s.record (.wrote b)).socketClosed = true from hopen)]
  exact hbytes

theorem SyncInv.exec_write (h : SyncInv s H) {b : Bytes} {k : AfterSend}
    (hop : Op.Synced s (.connWrite b (.sync k)))
    (hex : exec s t c (.connWrite b (.sync k)) = some (s₁, ops, start)) :
    SyncKept s s₁ H (.connWrite b (.sync k)) ops start := by
  obtain ⟨hconn, hsettled⟩ := hop
  have hsub : ∀ e, s.log ⊆ (s.record e).log := fun e => List.subset_cons_self _ _
  simp only [exec] at hex
  repeat' split at hex
  all_goals cases hex
  · next hc =>
      refine ⟨h.failed (Or.inl List.mem_cons_self), fun o ho => ?_, trivial⟩
      rw [List.mem_singleton.mp ho]
      refine ⟨fun _ => hconn, fun hclean => ?_⟩
      obtain ⟨hiff, hbytes⟩ := hsettled (hclean.mono (hsub _))
      have hs : Settled s [] := ⟨hiff, by rwa [if_pos hc] at hbytes ⊢⟩
      refine hs.mono ?_ ?_ rfl
      · simp [passed, Event.passedPkt]
      · simp [written, Event.wroteBytes]
  · refine ⟨h.failed (Or.inl List.mem_cons_self), fun o ho => ?_, trivial⟩
    rw [List.mem_singleton.mp ho]
    exact ⟨fun _ => hconn, fun hclean => absurd List.mem_cons_self hclean.2.2⟩
  · next hopen _ _ _ _ =>
      refine ⟨h.wrote (Or.inl List.mem_cons_self), fun o ho => ?_, trivial⟩
      rw [List.mem_singleton.mp ho]
      refine ⟨fun _ => hconn, fun hclean => Settled.wrote ?_ hopen⟩
      rw [List.append_nil]
      exact hsettled (hclean.mono (hsub _))
  · next hopen _ n _ _ =>
      refine ⟨h.wrote (Or.inl List.mem_cons_self), fun o ho => ?_, trivial⟩
      rw [List.mem_singleton.mp ho]
      refine ⟨hconn, fun hclean => Settled.wrote ?_ hopen⟩
      rw [List.take_append_drop]
      exact hsettled (hclean.mono (hsub _))

/-- The socket is closed after a `CLOSE_RSP`. -/
theorem Ended.settled (h : Ended s) (hp : passed s₁ = passed s) (hw : written s₁ = written s)
    (hc : s₁.socketClosed = true) : Settled s₁ [] := by
  refine ⟨?_, ?_⟩
  · rw [hp]
    exact ⟨fun _ => hc, fun _ => h.1⟩
  · rw [hp, hw, ite_self, List.append_nil]
    exact h.2

/-- The steps of `close`. -/
theorem SyncInv.exec_close (h : SyncInv s H) (hS : StreamInv s H) {caller : CloseCaller}
    (hop : caller.Synced s) (hholds : op.Holds s t)
    (hkind : op = .close caller ∨ op = .closeClosed caller ∨ op = .connClose caller ∨
      op = .cancel caller ∨ op = .onceDone caller)
    (hex : exec s t c op = some (s₁, ops, start)) : SyncKept s s₁ H op ops start := by
  have he := exec_effect hex
  have hmoves : op.moves = false := by
    rcases hkind with rfl | rfl | rfl | rfl | rfl <;> rfl
  obtain ⟨h1, -, -, h4, -, h6⟩ := he.still hmoves
  have hcaller : caller.Synced s₁ := by
    cases caller with
    | nobody => exact fun hclean => hop (hclean.mono he.log)
    | handshake => exact fun hclean => hop (hclean.mono he.log)
    | writer => exact hop.elim
    | send k => exact ⟨h6.trans hop.1, fun hclean => (hop.2 (hclean.mono he.log)).mono h4 h1⟩
  have hwhy : Clean s.log → .closeRsp ∈ passed s := by
    intro hclean
    cases caller with
    | nobody => exact absurd hclean hop
    | handshake => exact absurd hclean hop
    | writer => exact hop.elim
    | send k => exact (hop.2 hclean).1
  have hreturned : s₁.socketClosed = true → ∀ o ∈ caller.returned, o.Synced s₁ := by
    intro hc o ho
    cases caller with
    | nobody => cases ho
    | handshake =>
        rw [List.mem_singleton.mp ho]
        exact ⟨(fun hk => nomatch hk), fun hclean => absurd (hclean.mono he.log) hop⟩
    | writer => exact hop.elim
    | send k =>
        rw [List.mem_singleton.mp ho]
        exact ⟨fun _ => h6.trans hop.1, fun hclean =>
          (hop.2 (hclean.mono he.log)).settled h4 h1 hc⟩
  have hlocked : ∀ {new : List Token}, (.lock ∈ caller.tokens → .lock ∈ new) →
      ¬ (.lock ∈ new ++ Pool.startTokens Op.tokens start ∨ (H .lock ∧ .lock ∉ op.tokens)) →
      Clean s₁.log → s.connected = true → Settled s₁ [] := by
    intro new hnew hl hclean hconn
    have hclean' := hclean.mono he.log
    cases caller with
    | nobody => exact absurd hclean' hop
    | handshake => exact absurd hclean' hop
    | writer => exact hop.elim
    | send k => exact absurd (Or.inl (List.mem_append_left _ (hnew List.mem_cons_self))) hl
  have hback : .lock ∈ caller.tokens → .lock ∈ caller.returned.flatMap Op.tokens := by
    cases caller with
    | send k => exact fun _ => List.mem_cons_self
    | handshake => exact fun _ => List.mem_cons_self
    | nobody => exact fun hk => nomatch hk
    | writer => exact fun hk => nomatch hk
  have hone : ∀ o : Op, o.tokens = .once :: caller.tokens → .lock ∈ caller.tokens →
      .lock ∈ [o].flatMap Op.tokens := by
    intro o ho hk
    rw [List.flatMap_cons, ho]
    exact List.mem_append_left _ (List.mem_cons_of_mem _ hk)
  rcases hkind with rfl | rfl | rfl | rfl | rfl
  · simp only [HttpConnect.exec] at hex
    split at hex
    · next hdone =>
        cases hex
        exact ⟨h.still he rfl (hlocked hback) Or.inl, hreturned (hS.done hdone).2, trivial⟩
    · split at hex <;> cases hex
      refine ⟨h.still he rfl (hlocked (hone _ rfl)) fun _ => Or.inr hwhy, fun o ho => ?_, trivial⟩
      rw [List.mem_singleton.mp ho]
      exact hcaller
  · simp only [HttpConnect.exec] at hex
    cases hex
    refine ⟨h.still he rfl (hlocked (hone _ rfl)) Or.inl, fun o ho => ?_, trivial⟩
    rw [List.mem_singleton.mp ho]
    exact hcaller
  · simp only [HttpConnect.exec] at hex
    cases hex
    refine ⟨h.still he rfl (hlocked (hone _ rfl)) Or.inl, fun o ho => ?_, trivial⟩
    rw [List.mem_singleton.mp ho]
    exact hcaller
  · simp only [HttpConnect.exec] at hex
    cases hex
    refine ⟨h.still he rfl (hlocked (hone _ rfl)) Or.inl, fun o ho => ?_, trivial⟩
    rw [List.mem_singleton.mp ho]
    exact hcaller
  · simp only [HttpConnect.exec] at hex
    cases hex
    exact ⟨h.still he rfl (hlocked hback) Or.inl, hreturned hholds.2.2, trivial⟩

theorem SyncInv.kept_send (h : SyncInv s H) (hS : StreamInv s H) {pkt : FrontendPacket}
    {k : AfterSend} (hop : Op.Synced s (.send pkt k))
    (hex : exec s t c (.send pkt k) = some (s₁, ops, start)) :
    SyncKept s s₁ H (.send pkt k) ops start := by
  simp only [HttpConnect.exec] at hex
  split at hex <;> cases hex
  next hfree =>
    have hidle := h.idle fun hH => hfree (hS.lock hH)
    have hsub : s.log ⊆ .passed t pkt :: s.log := List.subset_cons_self _ _
    have hrec := send_record s t pkt
    refine ⟨⟨h.size, fun hc => ?_, fun hent hclean => ?_, fun hl => absurd ?_ hl⟩,
      fun o ho => ?_, trivial⟩
    · rw [show s.connected = true from hop] at hc
      cases hc
    · rw [hrec.2.2.2]
      exact List.mem_append_left _ (h.closes hent (hclean.mono hsub))
    · exact Or.inl List.mem_cons_self
    · rw [List.mem_singleton.mp ho]
      cases pkt with
      | data b => exact ⟨hop, fun hclean => ((hidle (hclean.mono hsub) hop).passing rfl).1 b rfl⟩
      | closeRsp => exact ⟨hop, fun hclean => ((hidle (hclean.mono hsub) hop).passing rfl).2 rfl⟩

theorem SyncInv.kept_closeConnected (h : SyncInv s H) (hS : StreamInv s H)
    (hop : Op.Synced s .closeConnected)
    (hex : exec s t c .closeConnected = some (s₁, ops, start)) :
    SyncKept s s₁ H .closeConnected ops start := by
  simp only [HttpConnect.exec] at hex
  cases hex
  obtain ⟨hconn, hwrote⟩ := hop
  have hsettled : Clean s.log → Settled { s with connected := true } [] := by
    intro hclean
    have hopen := h.open_unconnected hS hconn hclean
    have hnone := h.unconnected hconn
    refine ⟨?_, ?_⟩
    · change .closeRsp ∈ passed s ↔ s.socketClosed = true
      rw [hnone, hopen]
      simp
    · change written s ++ _ = _ ++ syncBytes (passed s)
      rw [hnone, hwrote, ite_self, syncBytes]
  refine ⟨⟨h.size, (fun hc => by cases hc), h.closes, fun _ hclean _ => hsettled hclean⟩,
    fun o ho => ?_, trivial⟩
  rw [List.mem_singleton.mp ho]
  exact ⟨fun _ => rfl, hsettled⟩

theorem SyncInv.kept_route (h : SyncInv s H) {pkt : FrontendPacket}
    (hop : Op.Synced s (.route pkt))
    (hex : exec s t c (.route pkt) = some (s₁, ops, start)) :
    SyncKept s s₁ H (.route pkt) ops start := by
  have he := exec_effect hex
  simp only [HttpConnect.exec] at hex
  repeat' split at hex
  all_goals cases hex
  · next hest _ _ =>
      refine ⟨h.quiet he rfl (by simp [Op.tokens]) rfl rfl, fun o ho => ?_, trivial⟩
      rw [List.mem_singleton.mp ho]
      exact hop.resolve_right fun hf => by rw [hest] at hf; cases hf
  · next hest _ =>
      refine ⟨h.quiet he rfl (by simp [Op.tokens]) rfl rfl, fun o ho => ?_, trivial⟩
      rw [List.mem_singleton.mp ho]
      exact hop.resolve_right fun hf => by rw [hest] at hf; cases hf
  · refine ⟨h.quiet he rfl (by simp [Op.tokens]) rfl rfl, fun o ho => ?_, trivial⟩
    rw [List.mem_singleton.mp ho]
    exact hop

theorem SyncInv.exec (h : SyncInv s H) (hS : StreamInv s H) (hop : op.Synced s)
    (hholds : op.Holds s t) (hex : exec s t c op = some (s₁, ops, start)) :
    SyncKept s s₁ H op ops start := by
  have he := exec_effect hex
  cases op with
  | connWrite b caller =>
      rcases caller with _ | k | _
      · exact h.exec_handshake hS hop hex
      · exact h.exec_write hop hex
      · exact hop.elim
  | close caller => exact h.exec_close hS hop hholds (Or.inl rfl) hex
  | closeClosed caller => exact h.exec_close hS hop hholds (Or.inr (Or.inl rfl)) hex
  | connClose caller => exact h.exec_close hS hop hholds (Or.inr (Or.inr (Or.inl rfl))) hex
  | cancel caller => exact h.exec_close hS hop hholds (Or.inr (Or.inr (Or.inr (Or.inl rfl)))) hex
  | onceDone caller => exact h.exec_close hS hop hholds (Or.inr (Or.inr (Or.inr (Or.inr rfl)))) hex
  | enqueueWrite pkt k => exact hop.elim
  | tryEnqueue pkt k => exact hop.elim
  | blockedEnqueue pkt k => exact hop.elim
  | writerLoop => exact hop.elim
  | writerSelect => exact hop.elim
  | send pkt k => exact h.kept_send hS hop hex
  | closeConnected => exact h.kept_closeConnected hS hop hex
  | startWriter =>
      simp only [HttpConnect.exec] at hex
      cases hex
      refine ⟨h.quiet he rfl (fun _ => List.mem_cons_self) rfl rfl, fun o ho => ?_, ?_⟩
      · rw [List.mem_singleton.mp ho]
        exact hop
      · rw [h.size, if_neg (Nat.lt_irrefl 0)]
        trivial
  | sendDialResponse =>
      simp only [HttpConnect.exec] at hex
      split at hex <;> cases hex
      refine ⟨h.quiet he rfl (by simp [Op.tokens]) rfl rfl, fun o ho => ?_, trivial⟩
      rw [List.mem_singleton.mp ho]
      refine ⟨hop.1, ?_⟩
      change written s ++ _ = _
      rw [hop.2, List.nil_append]
  | streamSend pkt k =>
      simp only [HttpConnect.exec] at hex
      repeat' split at hex
      all_goals cases hex
      · refine ⟨h.quiet he rfl (fun _ => List.mem_cons_self) rfl rfl, fun o ho => ?_, trivial⟩
        rw [List.mem_singleton.mp ho]
        exact hop
      · next hn => exact absurd h.size hn
      · next hq =>
          rw [h.size] at hq
          exact absurd hq.1 (Nat.lt_irrefl 0)
      · refine ⟨h.quiet he rfl (fun _ => List.mem_cons_self) rfl rfl, fun o ho => ?_, trivial⟩
        rw [List.mem_singleton.mp ho]
        exact hop
  | unlock k =>
      simp only [HttpConnect.exec] at hex
      cases hex
      refine ⟨h.still he rfl (fun _ hclean _ => hop.2 hclean) Or.inl, fun o ho => ?_, trivial⟩
      cases k with
      | nobody => cases ho
      | exited => cases ho
      | dispatch =>
          rw [List.mem_singleton.mp ho]
          exact Or.inl (hop.1 rfl)
      | removeEstablished =>
          rw [List.mem_singleton.mp ho]
          trivial
  | afterFunc =>
      simp only [HttpConnect.exec] at hex
      split at hex <;> cases hex
      · exact ⟨h.quiet he rfl (by simp [Op.tokens]) rfl rfl, (fun o ho => by cases ho), trivial⟩
      · refine ⟨h.quiet he rfl (by simp [Op.tokens]) rfl rfl, fun o ho => ?_, trivial⟩
        rw [List.mem_singleton.mp ho]
        exact fun hclean => absurd List.mem_cons_self hclean.2.1
  | route pkt => exact h.kept_route hop hex
  | dispatchExit =>
      simp only [HttpConnect.exec] at hex
      split at hex <;> cases hex
      · next hest =>
          refine ⟨h.quiet he rfl (by simp [Op.tokens]) rfl rfl, fun o ho => ?_, trivial⟩
          rw [List.mem_singleton.mp ho]
          exact hop.resolve_right fun hf => by rw [hest] at hf; cases hf
      · exact ⟨h.quiet he rfl (by simp [Op.tokens]) rfl rfl, (fun o ho => by cases ho), trivial⟩
  | dispatch =>
      simp only [HttpConnect.exec] at hex
      repeat' split at hex
      all_goals cases hex
      all_goals refine ⟨h.quiet he rfl (by simp [Op.tokens]) rfl rfl, fun o ho => ?_, trivial⟩
      all_goals rw [List.mem_singleton.mp ho]
      all_goals exact hop
  | removeEstablished =>
      simp only [HttpConnect.exec] at hex
      cases hex
      refine ⟨h.quiet he rfl (by simp [Op.tokens]) rfl rfl, fun o ho => ?_, trivial⟩
      rw [List.mem_singleton.mp ho]
      exact Or.inr rfl
  | _ =>
      simp only [HttpConnect.exec] at hex
      repeat' split at hex
      all_goals cases hex
      all_goals refine ⟨h.quiet he rfl (by simp [Op.tokens]) rfl rfl, fun o ho => ?_, trivial⟩
      all_goals first
        | cases ho; done
        | rw [List.mem_singleton.mp ho]; trivial

end Steps

theorem arrive_synced {s s₁ : StreamState} {a : StreamAction} {start : Option (Tid × List Op)}
    (h : arrive s a = some (s₁, start)) : System.StartOk (fun _ o => Op.Synced s₁ o) start ∧
      s₁.socketClosed = s.socketClosed := by
  cases a with
  | close k =>
      simp only [arrive] at h
      cases h
      refine ⟨fun o ho => ?_, rfl⟩
      rw [List.mem_singleton.mp ho]
      exact fun hclean => absurd List.mem_cons_self hclean.1
  | send k pkt =>
      simp only [arrive] at h
      split at h <;> cases h
      next hconn =>
        refine ⟨fun o ho => ?_, rfl⟩
        rw [List.mem_singleton.mp ho]
        exact hconn
  | ctxEnd =>
      simp only [arrive] at h
      split at h <;> cases h
      refine ⟨?_, rfl⟩
      split
      · trivial
      · intro o ho
        rw [List.mem_singleton.mp ho]
        trivial
  | _ =>
      simp only [arrive] at h
      repeat' split at h
      all_goals cases h
      all_goals refine ⟨?_, rfl⟩
      all_goals first
        | trivial
        | exact fun o ho => List.mem_singleton.mp ho ▸ trivial

theorem sync_inv {xfrChannelSize : Nat}
    {okExec : StreamState → Tid → Choice → Op → Prop} {okArrive : StreamState → StreamAction → Prop}
    {s : System.State StreamState Tid Op}
    (h : Reach httpConnectStream.step (System.Allowed okExec okArrive)
      (newHTTPConnectStream 0 xfrChannelSize) s) :
    SyncInv s.shared (Pool.Held Op.tokens s.threads) ∧
      Pool.All (fun _ o => Op.Synced s.shared o) s.threads := by
  refine System.invariant_owned Op.tokens (fun hr => (stream_inv hr).1) SyncInv
    (fun s _ o => o.Synced s) ?_ (new_threads ⟨rfl, rfl⟩) ?_ ?_ h
  · exact ⟨rfl, fun _ => rfl, (fun hc => nomatch hc), (fun _ _ hc => nomatch hc)⟩
  · intro s t c o s₁ ops start hr ho hJ hP _ hex
    obtain ⟨-, hS, hholds⟩ := stream_inv hr
    obtain ⟨h1, h2, h3⟩ := hJ.exec hS hP (hholds t o ho) hex
    refine ⟨h1, fun _ o' htok hq => ?_, h2, h3⟩
    have he : Effect o s.shared s₁ := exec_effect hex
    refine he.synced hP (exec_socket hex) (fun hk => he.sends.resolve_right ?_)
      (fun k hk => (htok k hk).2) hq
    exact fun hsend => hsend.2 (hS.lock (htok _ hk).1)
  · intro s a s₁ start hr hJ _ harr
    obtain ⟨he, hent⟩ := arrive_effect harr
    obtain ⟨hstart, hsocket⟩ := arrive_synced harr
    have htok := arrive_tokens harr
    refine ⟨?_, fun _ o hq => ?_, hstart⟩
    · rw [htok]
      obtain ⟨h1, -, -, h4, -, -⟩ := he.still rfl
      refine hJ.still he rfl (fun hl hclean hconn => ?_) fun hc => Or.inl (hent ▸ hc)
      exact (hJ.idle (fun hH => hl (Or.inr hH)) (hclean.mono he.log) hconn).mono h4 h1 hsocket
    · exact he.synced trivial (Or.inl hsocket) (fun _ => (he.still rfl).2.2.2.1)
        (fun k _ => by simp [Op.tokens]) hq

/-- What a stream without a queue has written between two calls of `Send`. -/
theorem sync_written {xfrChannelSize : Nat} {s : System.State StreamState Tid Op}
    (h : Reach httpConnectStream.step System.unrestricted
      (newHTTPConnectStream 0 xfrChannelSize) s)
    (hconn : s.shared.connected = true) (hclean : Clean s.shared.log)
    (hfree : s.shared.sendLock = none) :
    written s.shared = connectEstablished ++ syncBytes (passed s.shared) := by
  have hlock : ¬ Pool.Held Op.tokens s.threads .lock := by
    intro hH
    have hsome := (stream_inv h).2.1.lock hH
    rw [hfree] at hsome
    cases hsome
  obtain ⟨-, hbytes⟩ := (sync_inv h).1.idle hlock hclean hconn
  rw [ite_self, List.append_nil] at hbytes
  exact hbytes

end Konnectivity.Server.HttpConnect
