import Konnectivity.Proofs.HttpSync

/-!
# From the agent to the socket

The dispatcher takes the packets of the agent out of `recvCh` and passes them
to `Send` until a `CLOSE_RSP`, its own when the agent has gone without one. So
nothing that was received is left behind when the socket is closed, unless
somebody else closed it.
-/

namespace Konnectivity.Server.HttpConnect

open Lib

/-- Nor did the handler of the frontend end. -/
def Fair (log : List Event) : Prop := Clean log ∧ .frontendGone ∉ log

instance (log : List Event) : Decidable (Fair log) :=
  inferInstanceAs (Decidable (Clean log ∧ Event.frontendGone ∉ log))

theorem Fair.mono {log log' : List Event} (h : Fair log') (hsub : log ⊆ log') : Fair log :=
  ⟨h.1.mono hsub, fun hin => h.2 (hsub hin)⟩

/-! ## The invariant of the dispatcher -/

/-- All that was received was delivered, is in hand or is in `recvCh`. -/
def Open (s : StreamState) (hand : List FrontendPacket) : Prop :=
  s.established = true ∧ received s = delivered s ++ hand ++ s.recvCh.buf ∧
    .closeRsp ∉ delivered s

/-- A `CLOSE_RSP` was delivered or is in hand, with all that came before. -/
def Shut (s : StreamState) (hand : List FrontendPacket) : Prop :=
  s.established = false ∧ .closeRsp ∈ delivered s ++ hand ∧
    syncBytes (delivered s ++ hand) = syncBytes (received s) ∧
    (.closeRsp ∈ received s ∨ s.recvCh.closed = true)

def Even (s : StreamState) : Prop := Open s [] ∨ Shut s []

/-- What the dispatcher knows. -/
def Op.Dispatched (s : StreamState) : Op → Prop
  | .route pkt => Open s [pkt] ∨ Shut s []
  | .dispatchExit => (Open s [] ∧ s.recvCh.buf = [] ∧ s.recvCh.closed = true) ∨ Shut s []
  | .send (.data b) _ => Open s [.data b]
  | .send .closeRsp _ => Shut s [.closeRsp]
  | .removeEstablished | .unlock .removeEstablished => False
  | .close .handshake | .closeClosed .handshake | .connClose .handshake | .cancel .handshake |
    .onceDone .handshake => False
  | _ => Even s

def CloseCaller.Sends : CloseCaller → Prop
  | .send k => k ≠ .removeEstablished
  | _ => True

/-- Only a failed handshake removes the connection. -/
def Op.Sends : Op → Prop
  | .send _ k | .streamSend _ k | .enqueueWrite _ k | .tryEnqueue _ k | .blockedEnqueue _ k |
    .connWrite _ (.sync k) => k ≠ .removeEstablished
  | .close caller | .closeClosed caller | .connClose caller | .cancel caller | .onceDone caller =>
      caller.Sends
  | _ => True

/-- The operations of the dispatcher, and what they know of a fair run. -/
def Op.Drains (s : StreamState) (t : Tid) (o : Op) : Prop :=
  (t = .dispatch ↔ .dispatcher ∈ o.tokens) ∧ o.Sends ∧
    (.dispatcher ∈ o.tokens → Fair s.log → o.Dispatched s)

def DrainInv (s : StreamState) (H : Token → Prop) : Prop :=
  ¬ H .dispatcher → Fair s.log → Even s

/-! ## What others do -/

/-- What the dispatcher sees of the others. -/
structure Fed (s s₁ : StreamState) : Prop where
  log : s.log ⊆ s₁.log
  established : s₁.established = s.established
  delivered : delivered s₁ = delivered s
  closed : s.recvCh.closed = true → s₁.recvCh.closed = true
  received : (received s₁ = received s ∧ s₁.recvCh.buf = s.recvCh.buf) ∨
    ∃ pkt, s.recvCh.closed = false ∧ received s₁ = received s ++ [pkt] ∧
      s₁.recvCh.buf = s.recvCh.buf ++ [pkt]

section Steps

variable {s s₁ : StreamState} {H : Token → Prop} {t : Tid} {c : Choice} {op o : Op}
  {ops : List Op} {start : Option (Tid × List Op)} {hand : List FrontendPacket}

theorem Fed.open (hf : Fed s s₁) (h : Open s hand) : Open s₁ hand := by
  obtain ⟨h1, h2, h3⟩ := h
  refine ⟨hf.established.trans h1, ?_, hf.delivered ▸ h3⟩
  rw [hf.delivered]
  rcases hf.received with ⟨hr, hb⟩ | ⟨pkt, -, hr, hb⟩
  · rw [hr, hb]
    exact h2
  · rw [hr, hb, h2, List.append_assoc]

theorem Fed.shut (hf : Fed s s₁) (h : Shut s hand) : Shut s₁ hand := by
  obtain ⟨h1, h2, h3, h4⟩ := h
  refine ⟨hf.established.trans h1, hf.delivered ▸ h2, ?_, ?_⟩
  · rw [hf.delivered]
    rcases hf.received with ⟨hr, -⟩ | ⟨pkt, hopen, hr, -⟩
    · rw [hr]
      exact h3
    · have hin : .closeRsp ∈ HttpConnect.received s := by
        refine h4.resolve_right fun hc => ?_
        rw [hopen] at hc
        cases hc
      rw [hr, syncBytes_closed hin]
      exact h3
  · refine h4.imp (fun hin => ?_) hf.closed
    rcases hf.received with ⟨hr, -⟩ | ⟨pkt, -, hr, -⟩
    · rw [hr]
      exact hin
    · rw [hr]
      exact List.mem_append_left _ hin

theorem Fed.even (hf : Fed s s₁) (h : Even s) : Even s₁ := h.imp hf.open hf.shut

theorem Fed.dispatched (hf : Fed s s₁) (h : o.Dispatched s) : o.Dispatched s₁ := by
  cases o with
  | route pkt => exact h.imp hf.open hf.shut
  | dispatchExit =>
      refine h.imp (fun ⟨h1, h2, h3⟩ => ⟨hf.open h1, ?_, hf.closed h3⟩) hf.shut
      rcases hf.received with ⟨-, hb⟩ | ⟨pkt, hopen, -, -⟩
      · exact hb.trans h2
      · rw [hopen] at h3
        cases h3
  | send pkt k =>
      cases pkt with
      | data b => exact hf.open h
      | closeRsp => exact hf.shut h
  | unlock k => cases k <;> first | exact h | exact hf.even h
  | close caller => cases caller <;> first | exact h | exact hf.even h
  | closeClosed caller => cases caller <;> first | exact h | exact hf.even h
  | connClose caller => cases caller <;> first | exact h | exact hf.even h
  | cancel caller => cases caller <;> first | exact h | exact hf.even h
  | onceDone caller => cases caller <;> first | exact h | exact hf.even h
  | removeEstablished => exact h
  | _ => exact hf.even h

/-- Events the dispatcher does not see. -/
def Event.aside : Event → Bool
  | .received _ | .passed .dispatch _ => false
  | _ => true

theorem fed_aside (hlog : s₁.log = s.log ∨ ∃ e, e.aside = true ∧ s₁.log = e :: s.log)
    (hest : s₁.established = s.established) (hbuf : s₁.recvCh.buf = s.recvCh.buf)
    (hclosed : s.recvCh.closed = true → s₁.recvCh.closed = true) : Fed s s₁ := by
  have hsame : s.log ⊆ s₁.log ∧ delivered s₁ = delivered s ∧ received s₁ = received s := by
    rcases hlog with hlog | ⟨e, he, hlog⟩
    · simp [delivered, received, hlog]
    · have hnone : e.deliveredPkt = none ∧ e.receivedPkt = none := by
        cases e with
        | received pkt => cases he
        | passed t pkt =>
            cases t with
            | dispatch => cases he
            | _ => exact ⟨rfl, rfl⟩
        | _ => exact ⟨rfl, rfl⟩
      simp [delivered, received, hlog, hnone]
  exact ⟨hsame.1, hest, hsame.2.1, hclosed, Or.inl ⟨hsame.2.2, hbuf⟩⟩

theorem enqueue_fed {pkt : FrontendPacket} {case : Case} (h : s.enqueue pkt case = some s₁) :
    Fed s s₁ := by
  unfold StreamState.enqueue at h
  repeat' split at h
  all_goals cases h
  all_goals exact fed_aside (Or.inr ⟨_, rfl, rfl⟩) rfl rfl id

/-- The operations the dispatcher moves packets with. -/
def Op.dispatching : Op → Bool
  | .dispatch | .route _ | .dispatchExit | .removeEstablished => true
  | _ => false

theorem exec_fed (hex : exec s t c op = some (s₁, ops, start)) (hop : op.dispatching = false)
    (hsend : ∀ pkt k, op = .send pkt k → t ≠ .dispatch) : Fed s s₁ := by
  cases op with
  | dispatch => cases hop
  | route pkt => cases hop
  | dispatchExit => cases hop
  | removeEstablished => cases hop
  | recvChSend pkt =>
      simp only [exec] at hex
      split at hex
      · cases hex
      · cases hex
        exact fed_aside (Or.inl rfl) rfl rfl id
      · next ch hch =>
          cases hex
          unfold GoChan.send at hch
          repeat' split at hch
          all_goals cases hch
          next hopen _ =>
            refine ⟨List.subset_cons_self _ _, rfl, ?_, id,
              Or.inr ⟨pkt, Bool.eq_false_iff.mpr hopen, ?_, rfl⟩⟩
            · simp [delivered, Event.deliveredPkt]
            · simp [received, Event.receivedPkt]
  | closeRecvCh =>
      simp only [exec] at hex
      split at hex
      · cases hex
        exact fed_aside (Or.inl rfl) rfl rfl id
      · next ch hch =>
          cases hex
          unfold GoChan.close at hch
          split at hch <;> cases hch
          exact fed_aside (Or.inl rfl) rfl rfl fun _ => rfl
  | send pkt k =>
      have hne := hsend pkt k rfl
      simp only [exec] at hex
      split at hex <;> cases hex
      refine fed_aside (Or.inr ⟨_, ?_, rfl⟩) rfl rfl id
      cases t <;> first | rfl | exact absurd rfl hne
  | tryEnqueue pkt k =>
      simp only [exec] at hex
      split at hex
      · split at hex <;> cases hex
        exact fed_aside (Or.inl rfl) rfl rfl id
      · obtain ⟨s', henq, heq⟩ := Option.map_eq_some_iff.mp hex
        cases heq
        exact enqueue_fed henq
  | blockedEnqueue pkt k =>
      simp only [exec] at hex
      obtain ⟨s', henq, heq⟩ := Option.map_eq_some_iff.mp hex
      cases heq
      exact enqueue_fed henq
  | _ =>
      simp only [exec] at hex
      repeat' split at hex
      all_goals cases hex
      all_goals first
        | exact fed_aside (Or.inl rfl) rfl rfl id
        | exact fed_aside (Or.inr ⟨_, rfl, rfl⟩) rfl rfl id

/-- Whose thread an operation of the new ones is in. -/
theorem exec_dispatcher (hop : op.Sends) (hex : exec s t c op = some (s₁, ops, start)) :
    (∀ o ∈ ops, (.dispatcher ∈ o.tokens ↔ .dispatcher ∈ op.tokens) ∧ o.Sends) ∧
      ∀ t' ops', start = some (t', ops') → t' = .writer ∧ ops' = [.writerLoop] := by
  cases op with
  | connWrite b caller =>
      simp only [exec] at hex
      repeat' split at hex
      all_goals cases hex
      all_goals refine ⟨fun o ho => ?_, by simp⟩
      all_goals rcases caller with _ | k | _
      all_goals rw [List.mem_singleton.mp ho]
      all_goals first
        | exact ⟨Iff.rfl, hop⟩
        | simp [Op.Sends, CloseCaller.Sends, Op.tokens, WriteCaller.tokens, CloseCaller.tokens,
          AfterSend.tokens]
  | unlock k =>
      simp only [exec] at hex
      cases hex
      refine ⟨fun o ho => ?_, by simp⟩
      cases k <;> simp only [AfterSend.returned, List.not_mem_nil, List.mem_singleton] at ho
      all_goals rw [ho]
      all_goals simp [Op.Sends, Op.tokens, AfterSend.tokens]
  | close caller =>
      simp only [exec] at hex
      repeat' split at hex
      all_goals cases hex
      all_goals refine ⟨fun o ho => ?_, by simp⟩
      · cases caller <;> simp only [CloseCaller.returned, List.not_mem_nil,
          List.mem_singleton] at ho
        all_goals rw [ho]
        all_goals simp [Op.Sends, Op.tokens, CloseCaller.tokens, AfterSend.tokens]
      · rw [List.mem_singleton.mp ho]
        exact ⟨by simp [Op.tokens], hop⟩
  | onceDone caller =>
      simp only [exec] at hex
      cases hex
      refine ⟨fun o ho => ?_, by simp⟩
      cases caller <;> simp only [CloseCaller.returned, List.not_mem_nil, List.mem_singleton] at ho
      all_goals rw [ho]
      all_goals simp [Op.Sends, Op.tokens, CloseCaller.tokens, AfterSend.tokens]
  | startWriter =>
      simp only [exec] at hex
      cases hex
      refine ⟨by simp [Op.Sends, CloseCaller.Sends, Op.tokens], fun t' ops' heq => ?_⟩
      split at heq <;> cases heq
      exact ⟨rfl, rfl⟩
  | tryEnqueue pkt k =>
      simp only [exec] at hex
      split at hex
      · split at hex <;> cases hex
        exact ⟨fun o ho => List.mem_singleton.mp ho ▸ ⟨Iff.rfl, hop⟩, by simp⟩
      · obtain ⟨s', henq, heq⟩ := Option.map_eq_some_iff.mp hex
        cases heq
        exact ⟨fun o ho => List.mem_singleton.mp ho ▸ ⟨Iff.rfl, trivial⟩, by simp⟩
  | blockedEnqueue pkt k =>
      simp only [exec] at hex
      obtain ⟨s', henq, heq⟩ := Option.map_eq_some_iff.mp hex
      cases heq
      exact ⟨by simp [Op.Sends, CloseCaller.Sends, Op.tokens], by simp⟩
  | writerLoop =>
      simp only [exec] at hex
      cases hex
      refine ⟨fun o ho => ?_, by simp⟩
      split at ho <;> rw [List.mem_singleton.mp ho] <;> simp [Op.Sends, CloseCaller.Sends,
        Op.tokens, CloseCaller.tokens]
  | _ =>
      simp only [exec] at hex
      repeat' split at hex
      all_goals cases hex
      all_goals refine ⟨fun o ho => ?_, by simp⟩
      all_goals first
        | cases ho; done
        | rw [List.mem_singleton.mp ho]
      all_goals first
        | exact ⟨Iff.rfl, hop⟩
        | exact ⟨by simp [Op.tokens, WriteCaller.tokens, CloseCaller.tokens], hop⟩
        | simp [Op.Sends, Op.tokens, AfterSend.tokens]

theorem arrive_fed {a : StreamAction} (h : arrive s a = some (s₁, start)) :
    Fed s s₁ ∨ .frontendGone ∈ s₁.log := by
  cases a with
  | frontendGone =>
      simp only [arrive] at h
      cases h
      exact Or.inr List.mem_cons_self
  | _ =>
      simp only [arrive] at h
      repeat' split at h
      all_goals cases h
      all_goals first
        | exact Or.inl (fed_aside (Or.inl rfl) rfl rfl id)
        | exact Or.inl (fed_aside (Or.inr ⟨_, rfl, rfl⟩) rfl rfl id)

/-- The dispatcher passes the packet in its hand. -/
theorem exec_delivered {pkt : FrontendPacket} {k : AfterSend} (hop : Op.Dispatched s (.send pkt k))
    (hs₁ : s₁ = { s with sendLock := some .dispatch }.record (.passed .dispatch pkt)) :
    Even s₁ := by
  have hsame : delivered s₁ = delivered s ++ [pkt] ∧ received s₁ = received s ∧
      s₁.established = s.established ∧ s₁.recvCh = s.recvCh := by
    subst hs₁
    simp [delivered, received, Event.deliveredPkt, Event.receivedPkt]
  obtain ⟨h1, h2, h3, h4⟩ := hsame
  cases pkt with
  | data b =>
      obtain ⟨hest, hrec, hnot⟩ := hop
      refine Or.inl ⟨h3.trans hest, ?_, ?_⟩
      · rw [h1, h2, h4, hrec, List.append_nil]
      · rw [h1]
        simpa using hnot
  | closeRsp =>
      obtain ⟨hest, hin, hsync, hwhy⟩ := hop
      refine Or.inr ⟨h3.trans hest, ?_, ?_, ?_⟩
      · rw [h1, List.append_nil]
        exact hin
      · rw [h1, h2, List.append_nil]
        exact hsync
      · rw [h2, h4]
        exact hwhy

/-- The dispatcher takes the next packet out of `recvCh`, if there is one. -/
theorem exec_dispatch (h : Even s) (hex : exec s t c .dispatch = some (s₁, ops, start)) :
    ∀ o ∈ ops, o.Dispatched s₁ := by
  simp only [exec] at hex
  split at hex
  · cases hex
  · next hrecv =>
      cases hex
      intro o ho
      rw [List.mem_singleton.mp ho]
      unfold GoChan.recv at hrecv
      split at hrecv
      · cases hrecv
      · next hbuf =>
          split at hrecv <;> cases hrecv
          next hclosed => exact h.imp_left fun h => ⟨h, hbuf, hclosed⟩
  · next pkt ch hrecv =>
      cases hex
      intro o ho
      rw [List.mem_singleton.mp ho]
      unfold GoChan.recv at hrecv
      split at hrecv
      · next hbuf =>
          cases hrecv
          refine h.imp_left fun hin => ⟨hin.1, ?_, hin.2.2⟩
          have h2 := hin.2.1
          rw [hbuf, List.append_nil] at h2
          rw [List.append_assoc]
          exact h2
      · split at hrecv <;> cases hrecv

theorem exec_route {pkt : FrontendPacket} (h : Op.Dispatched s (.route pkt))
    (hex : exec s t c (.route pkt) = some (s₁, ops, start)) : ∀ o ∈ ops, o.Dispatched s₁ := by
  simp only [exec] at hex
  repeat' split at hex
  all_goals cases hex
  all_goals intro o ho
  all_goals rw [List.mem_singleton.mp ho]
  · next hest _ _ =>
      exact h.resolve_right fun hs => by rw [hs.1] at hest; cases hest
  · next hest _ =>
      obtain ⟨-, h2, -⟩ := h.resolve_right fun hs => by rw [hs.1] at hest; cases hest
      have hin : .closeRsp ∈ delivered s ++ [.closeRsp] :=
        List.mem_append_right _ List.mem_cons_self
      refine ⟨rfl, hin, ?_, Or.inl ?_⟩
      · change _ = syncBytes (received s)
        rw [h2, syncBytes_closed hin]
        rfl
      · change _ ∈ received s
        rw [h2]
        exact List.mem_append_left _ hin
  · next hest =>
      exact Or.inr (h.resolve_left fun ho => hest ho.1)

theorem exec_dispatchExit (h : Op.Dispatched s .dispatchExit)
    (hex : exec s t c .dispatchExit = some (s₁, ops, start)) :
    (∀ o ∈ ops, o.Dispatched s₁) ∧ (ops = [] → Even s₁) := by
  simp only [exec] at hex
  split at hex <;> cases hex
  · next hest =>
      refine ⟨fun o ho => ?_, (fun h => by cases h)⟩
      rw [List.mem_singleton.mp ho]
      obtain ⟨⟨-, h2, h3⟩, hbuf, hclosed⟩ :=
        h.resolve_right fun hs => by rw [hs.1] at hest; cases hest
      refine ⟨rfl, List.mem_append_right _ List.mem_cons_self, ?_, Or.inr hclosed⟩
      change syncBytes (delivered s ++ _) = syncBytes (received s)
      rw [h2, hbuf, List.append_nil, List.append_nil, syncBytes_append h3, syncBytes,
        List.append_nil]
  · next hest =>
      exact ⟨(fun o ho => by cases ho), fun _ => Or.inr (h.resolve_left fun ho => hest ho.1.1)⟩

theorem closer_absurd {caller : CloseCaller} (hq : caller.Queued s)
    (hne : caller = .handshake → False) (hown : .dispatcher ∈ caller.tokens) : False := by
  cases caller with
  | nobody => cases hown
  | writer => cases hown
  | send k => exact hq
  | handshake => exact hne rfl

theorem unlock_dispatched {k : AfterSend} (hk : k ≠ .removeEstablished) (h : Even s) :
    ∀ o ∈ [Op.unlock k], o.Dispatched s := by
  intro o ho
  rw [List.mem_singleton.mp ho]
  cases k <;> first | exact h | exact absurd rfl hk

/-- What the dispatcher leaves behind. -/
theorem exec_dispatched (hQ : QueueInv s H) (hS : StreamInv s H) (hq : op.Queued s)
    (hsends : op.Sends) (hfair : Fair s₁.log) (hown : .dispatcher ∈ op.tokens)
    (hd : op.Dispatched s) (hex : exec s .dispatch c op = some (s₁, ops, start)) :
    (∀ o ∈ ops, o.Dispatched s₁) ∧ (ops = [] → Even s₁) := by
  cases op with
  | dispatch =>
      refine ⟨exec_dispatch hd hex, fun hops => ?_⟩
      simp only [exec] at hex
      repeat' split at hex
      all_goals cases hex
      all_goals cases hops
  | route pkt =>
      refine ⟨exec_route hd hex, fun hops => ?_⟩
      simp only [exec] at hex
      repeat' split at hex
      all_goals cases hex
      all_goals cases hops
  | dispatchExit => exact exec_dispatchExit hd hex
  | removeEstablished => exact hd.elim
  | send pkt k =>
      simp only [exec] at hex
      split at hex <;> cases hex
      have heven := exec_delivered hd rfl
      refine ⟨fun o ho => ?_, fun _ => heven⟩
      rw [List.mem_singleton.mp ho]
      exact heven
  | connWrite b caller =>
      have hf := exec_fed hex rfl (by simp)
      rcases caller with _ | k | _
      · have hfail : ∀ closed, (closed = true → s.socketClosed = true) →
            ¬ Clean (s.record (.writeFailed closed)).log := by
          intro closed hc hclean
          have hin := hQ.failed hS hc hclean
          have hnone : dequeued (s.record (.writeFailed closed)) = [] := by
            have := hQ.dequeued_unconnected hq.1
            simpa [dequeued, Event.dequeuedPkt] using this
          rw [hnone] at hin
          cases hin
        simp only [exec] at hex
        repeat' split at hex
        all_goals cases hex
        · next hc => exact absurd hfair.1 (hfail true fun _ => hc)
        · exact absurd hfair.1 (hfail false (fun h => by cases h))
        · exact ⟨fun o ho => List.mem_singleton.mp ho ▸ hf.even hd, fun _ => hf.even hd⟩
        · exact ⟨fun o ho => List.mem_singleton.mp ho ▸ hf.even hd, fun _ => hf.even hd⟩
      · exact hq.elim
      · simp [Op.tokens, WriteCaller.tokens] at hown
  | unlock k =>
      have hf := exec_fed hex rfl (by simp)
      simp only [exec] at hex
      cases hex
      cases k with
      | removeEstablished => exact hd.elim
      | _ =>
          refine ⟨fun o ho => ?_, fun _ => hf.even hd⟩
          simp only [AfterSend.returned, List.not_mem_nil, List.mem_singleton] at ho
          try exact ho ▸ hf.even hd
  | close caller => exact (closer_absurd hq (by rintro rfl; exact hd) hown).elim
  | closeClosed caller =>
      exact (closer_absurd hq (by rintro rfl; exact hd)
        ((List.mem_cons.mp hown).resolve_left (by simp))).elim
  | connClose caller =>
      exact (closer_absurd hq (by rintro rfl; exact hd)
        ((List.mem_cons.mp hown).resolve_left (by simp))).elim
  | cancel caller =>
      exact (closer_absurd hq (by rintro rfl; exact hd)
        ((List.mem_cons.mp hown).resolve_left (by simp))).elim
  | onceDone caller =>
      exact (closer_absurd hq (by rintro rfl; exact hd)
        ((List.mem_cons.mp hown).resolve_left (by simp))).elim
  | tryEnqueue pkt k =>
      have hf := exec_fed hex rfl (by simp)
      simp only [exec] at hex
      split at hex
      · split at hex <;> cases hex
        exact ⟨fun o ho => List.mem_singleton.mp ho ▸ hf.even hd, fun _ => hf.even hd⟩
      · obtain ⟨s', henq, heq⟩ := Option.map_eq_some_iff.mp hex
        cases heq
        exact ⟨unlock_dispatched hsends (hf.even hd), fun _ => hf.even hd⟩
  | blockedEnqueue pkt k =>
      have hf := exec_fed hex rfl (by simp)
      simp only [exec] at hex
      obtain ⟨s', henq, heq⟩ := Option.map_eq_some_iff.mp hex
      cases heq
      exact ⟨unlock_dispatched hsends (hf.even hd), fun _ => hf.even hd⟩
  | enqueueWrite pkt k =>
      have hf := exec_fed hex rfl (by simp)
      simp only [exec] at hex
      split at hex <;> cases hex
      · exact ⟨unlock_dispatched hsends (hf.even hd), fun _ => hf.even hd⟩
      · exact ⟨fun o ho => List.mem_singleton.mp ho ▸ hf.even hd, fun _ => hf.even hd⟩
  | _ =>
      have hf := exec_fed hex rfl (by simp)
      simp only [exec] at hex
      repeat' split at hex
      all_goals cases hex
      all_goals first
        | exact ⟨fun o ho => List.mem_singleton.mp ho ▸ hf.even hd, fun _ => hf.even hd⟩
        | simp [Op.tokens] at hown

end Steps

theorem dispatcher_of_dispatching {o : Op} (h : o.dispatching = true) : .dispatcher ∈ o.tokens := by
  cases o <;> first | exact List.mem_cons_self | cases h

section Runs

variable {queueSize xfrChannelSize : Nat} {okExec : StreamState → Tid → Choice → Op → Prop}
  {okArrive : StreamState → StreamAction → Prop} {s : System.State StreamState Tid Op}

theorem arrive_drains {s s₁ : StreamState} {a : StreamAction} {start : Option (Tid × List Op)}
    (h : arrive s a = some (s₁, start)) : System.StartOk (fun t o => Op.Drains s₁ t o) start := by
  cases a <;> simp only [arrive] at h <;> repeat' split at h
  all_goals cases h
  all_goals first
    | trivial
    | intro o ho
      rw [List.mem_singleton.mp ho]
      simp [Op.Drains, Op.tokens, CloseCaller.tokens, AfterSend.tokens, Op.Sends, CloseCaller.Sends]

theorem drain_inv (hsize : 0 < queueSize)
    (h : Reach httpConnectStream.step (System.Allowed okExec okArrive)
      (newHTTPConnectStream queueSize xfrChannelSize) s) :
    DrainInv s.shared (Pool.Held Op.tokens s.threads) ∧
      Pool.All (fun t o => Op.Drains s.shared t o) s.threads := by
  refine System.invariant_owned Op.tokens (fun hr => (stream_inv hr).1) DrainInv
    (fun s t o => o.Drains s t) ?_ ?_ ?_ ?_ h
  · exact fun _ _ => Or.inl ⟨rfl, rfl, List.not_mem_nil⟩
  · refine new_threads ⟨by simp [Op.tokens], trivial, fun _ _ => ?_⟩
    exact Or.inl ⟨rfl, rfl, List.not_mem_nil⟩
  · intro s t c o s₁ ops start hr ho hJ hat _ hex
    obtain ⟨hthread, hsends, hd⟩ := hat
    change exec s.shared t c o = some (s₁, ops, start) at hex
    obtain ⟨-, hS, -⟩ := stream_inv hr
    obtain ⟨hQ, hq⟩ := queue_inv hsize hr
    obtain ⟨hops, hstart⟩ := exec_dispatcher hsends hex
    have hlog : s.shared.log ⊆ s₁.log := (exec_effect hex).log
    have hstarted : System.StartOk (fun t o => Op.Drains s₁ t o) start := by
      cases start with
      | none => trivial
      | some st =>
          obtain ⟨h1, h2⟩ := hstart _ _ rfl
          intro o ho
          rw [h2] at ho
          rw [h1, List.mem_singleton.mp ho]
          exact ⟨by simp [Op.tokens], trivial, by simp [Op.tokens]⟩
    by_cases hown : .dispatcher ∈ o.tokens
    · obtain rfl := hthread.mpr hown
      have hnew := fun hfair => exec_dispatched hQ hS (hq _ o ho) hsends hfair hown
        (hd hown (hfair.mono hlog)) hex
      refine ⟨fun hH hfair => (hnew hfair).2 ?_, fun t' o' htok hP => ⟨hP.1, hP.2.1, fun hk => ?_⟩,
        fun o' ho' => ⟨?_, (hops o' ho').2, fun _ hfair => (hnew hfair).1 o' ho'⟩, hstarted⟩
      · cases ops with
        | nil => rfl
        | cons o' rest =>
            refine absurd (Or.inl (List.mem_append_left _ ?_)) hH
            exact List.mem_append_left _ ((hops o' List.mem_cons_self).1.mpr hown)
      · exact absurd hown (htok _ hk).2
      · exact ⟨fun _ => (hops o' ho').1.mpr hown, fun _ => rfl⟩
    · have hne : t ≠ .dispatch := fun ht => hown (hthread.mp ht)
      have hf : Fed s.shared s₁ := by
        refine exec_fed hex (Bool.eq_false_iff.mpr fun hc => ?_) fun _ _ _ => hne
        exact hown (dispatcher_of_dispatching hc)
      refine ⟨fun hH hfair => hf.even (hJ (fun hK => hH (Or.inr ⟨hK, hown⟩)) (hfair.mono hlog)),
        fun t' o' _ hP => ⟨hP.1, hP.2.1, fun hk hfair => ?_⟩, fun o' ho' => ?_, hstarted⟩
      · exact hf.dispatched (hP.2.2 hk (hfair.mono hlog))
      · have hnot : .dispatcher ∉ o'.tokens := fun hk => hown ((hops o' ho').1.mp hk)
        exact ⟨⟨fun ht => absurd ht hne, fun hk => absurd hk hnot⟩, (hops o' ho').2,
          fun hk => absurd hk hnot⟩
  · intro s a s₁ start hr hJ _ harr
    have htok := arrive_tokens harr
    obtain ⟨he, -⟩ := arrive_effect harr
    have hfed : Fair s₁.log → Fed s.shared s₁ :=
      fun hfair => (arrive_fed harr).resolve_right hfair.2
    refine ⟨fun hH hfair => (hfed hfair).even (hJ (fun hK => hH (Or.inr hK)) (hfair.mono he.log)),
      fun t o hP => ⟨hP.1, hP.2.1, fun hk hfair => ?_⟩, arrive_drains harr⟩
    exact (hfed hfair).dispatched (hP.2.2 hk (hfair.mono he.log))

/-- What was delivered, whatever the dispatcher is doing. -/
theorem dispatcher_even (hsize : 0 < queueSize)
    (h : Reach httpConnectStream.step (System.Allowed okExec okArrive)
      (newHTTPConnectStream queueSize xfrChannelSize) s) (hfair : Fair s.shared.log) :
    ∃ hand, Open s.shared hand ∨ Shut s.shared hand := by
  obtain ⟨hJ, hP⟩ := drain_inv hsize h
  by_cases hH : Pool.Held Op.tokens s.threads .dispatcher
  · obtain ⟨t, o, ho, hk⟩ := hH
    obtain ⟨-, -, hd⟩ := hP t o ho
    have hd := hd hk hfair
    cases o with
    | route pkt =>
        rcases hd with hd | hd
        · exact ⟨_, Or.inl hd⟩
        · exact ⟨_, Or.inr hd⟩
    | dispatchExit => exact ⟨[], hd.imp_left And.left⟩
    | send pkt k =>
        cases pkt with
        | data b => exact ⟨_, Or.inl hd⟩
        | closeRsp => exact ⟨_, Or.inr hd⟩
    | removeEstablished => exact hd.elim
    | unlock k => cases k <;> first | exact hd.elim | exact ⟨[], hd⟩
    | close caller => cases caller <;> first | exact hd.elim | exact ⟨[], hd⟩
    | closeClosed caller => cases caller <;> first | exact hd.elim | exact ⟨[], hd⟩
    | connClose caller => cases caller <;> first | exact hd.elim | exact ⟨[], hd⟩
    | cancel caller => cases caller <;> first | exact hd.elim | exact ⟨[], hd⟩
    | onceDone caller => cases caller <;> first | exact hd.elim | exact ⟨[], hd⟩
    | _ => exact ⟨[], hd⟩
  · exact ⟨[], hJ hH hfair⟩

end Runs

end Konnectivity.Server.HttpConnect
