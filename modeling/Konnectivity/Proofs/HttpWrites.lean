import Konnectivity.Proofs.HttpStream

/-!
# Queued writes

The packets of a queued stream go from `Send` through `writeCh` to the writer,
and the writer stops at the first `CLOSE_RSP`. Whoever has the send lock knows
what was accepted; whoever may write knows what is in the socket.
-/

namespace Konnectivity.Server.HttpConnect

open Lib

/-! ## What the packets are worth -/

/-- The payloads up to the first `CLOSE_RSP`. -/
def syncBytes : List FrontendPacket → Bytes
  | [] => []
  | .data b :: pkts => b ++ syncBytes pkts
  | .closeRsp :: _ => []

theorem syncBytes_append {l : List FrontendPacket} (h : .closeRsp ∉ l) (l' : List FrontendPacket) :
    syncBytes (l ++ l') = syncBytes l ++ syncBytes l' := by
  induction l with
  | nil => rfl
  | cons pkt l ih =>
      rw [List.mem_cons, not_or] at h
      cases pkt with
      | data b => rw [List.cons_append, syncBytes, syncBytes, ih h.2, List.append_assoc]
      | closeRsp => exact absurd rfl h.1

theorem syncBytes_closed {l : List FrontendPacket} (h : .closeRsp ∈ l) (l' : List FrontendPacket) :
    syncBytes (l ++ l') = syncBytes l := by
  induction l with
  | nil => cases h
  | cons pkt l ih =>
      cases pkt with
      | data b =>
          rw [List.cons_append, syncBytes, syncBytes,
            ih ((List.mem_cons.mp h).resolve_left (by simp))]
      | closeRsp => rfl

theorem syncBytes_mono {l l' : List FrontendPacket} (h : l <+: l') :
    syncBytes l <+: syncBytes l' := by
  obtain ⟨r, rfl⟩ := h
  by_cases hc : .closeRsp ∈ l
  · exact (syncBytes_closed hc r).symm ▸ List.prefix_rfl
  · rw [syncBytes_append hc]
    exact List.prefix_append _ _

/-- Nobody but the `CLOSE_RSP` ends the stream: nobody called `Close`, and no
write failed on an open socket. -/
def Clean (log : List Event) : Prop :=
  .closeCalled ∉ log ∧ .aborted ∉ log ∧ .writeFailed false ∉ log

instance (log : List Event) : Decidable (Clean log) :=
  inferInstanceAs
    (Decidable (Event.closeCalled ∉ log ∧ Event.aborted ∉ log ∧ Event.writeFailed false ∉ log))

theorem Clean.mono {log log' : List Event} (h : Clean log') (hsub : log ⊆ log') : Clean log :=
  ⟨fun hin => h.1 (hsub hin), fun hin => h.2.1 (hsub hin), fun hin => h.2.2 (hsub hin)⟩

/-! ## What an operation changes -/

structure Effect (op : Op) (s s₁ : StreamState) : Prop where
  size : s₁.queueSize = s.queueSize
  log : s.log ⊆ s₁.log
  connected : s₁.connected = s.connected ∨ (op = .closeConnected ∧ s₁.connected = true)
  established : s.established = false → s₁.established = false
  closed : s.closed = true → s₁.closed = true
  entered : s.onceEntered = true → s₁.onceEntered = true
  bytes : written s₁ = written s ∨
    ∃ b caller, op = .connWrite b caller ∧ written s <+: written s₁
  queue : (dequeued s₁ = dequeued s ∧ (accepted s₁ = accepted s → s₁.writeCh = s.writeCh)) ∨
    (op = .writerSelect ∧ dequeued s ⊆ dequeued s₁)
  sends : passed s₁ = passed s ∨ ((∃ pkt k, op = .send pkt k) ∧ ¬ s.sendLock.isSome = true)
  accepts : accepted s₁ = accepted s ∨
    ∃ pkt k, op = .tryEnqueue pkt k ∨ op = .blockedEnqueue pkt k

section Effects

variable {s s₁ : StreamState} {t : Tid} {c : Choice} {op : Op} {ops : List Op}
  {start : Option (Tid × List Op)}

theorem enqueue_effect {pkt : FrontendPacket} {case : Case} (h : s.enqueue pkt case = some s₁) :
    s₁.queueSize = s.queueSize ∧ s.log ⊆ s₁.log ∧ s₁.connected = s.connected ∧
      s₁.established = s.established ∧ s₁.closed = s.closed ∧ s₁.onceEntered = s.onceEntered ∧
      written s₁ = written s ∧ dequeued s₁ = dequeued s ∧ passed s₁ = passed s ∧
      ((accepted s₁ = accepted s ++ [pkt] ∧ s₁.writeCh.buf = s.writeCh.buf ++ [pkt]) ∨
        (accepted s₁ = accepted s ∧ s₁.writeCh = s.writeCh ∧ s.closed = true)) := by
  unfold StreamState.enqueue at h
  repeat' split at h
  all_goals cases h
  · refine ⟨rfl, List.subset_cons_self _ _, rfl, rfl, rfl, rfl, ?_, ?_, ?_, Or.inl ⟨?_, rfl⟩⟩
    all_goals simp [written, dequeued, passed, accepted, Event.wroteBytes, Event.dequeuedPkt,
      Event.passedPkt, Event.acceptedPkt]
  · next hclosed =>
      refine ⟨rfl, List.subset_cons_self _ _, rfl, rfl, rfl, rfl, ?_, ?_, ?_,
        Or.inr ⟨?_, rfl, hclosed⟩⟩
      all_goals simp [written, dequeued, passed, accepted, Event.wroteBytes,
        Event.dequeuedPkt, Event.passedPkt, Event.acceptedPkt]

/-- Events that move neither packets nor bytes. -/
def Event.silent : Event → Bool
  | .passed _ _ | .accepted _ | .wrote _ | .dequeued _ => false
  | _ => true

theorem silent_collect {e : Event} (he : e.silent = true) :
    e.passedPkt = none ∧ e.acceptedPkt = none ∧ e.wroteBytes = none ∧ e.dequeuedPkt = none := by
  cases e <;> first | exact ⟨rfl, rfl, rfl, rfl⟩ | cases he

theorem effect_quiet (hlog : s₁.log = s.log ∨ ∃ e, e.silent = true ∧ s₁.log = e :: s.log)
    (hsize : s₁.queueSize = s.queueSize) (hconn : s₁.connected = s.connected)
    (hest : s.established = false → s₁.established = false)
    (hclosed : s.closed = true → s₁.closed = true)
    (hentered : s.onceEntered = true → s₁.onceEntered = true) (hch : s₁.writeCh = s.writeCh) :
    Effect op s s₁ := by
  have hsame : s.log ⊆ s₁.log ∧ passed s₁ = passed s ∧ accepted s₁ = accepted s ∧
      written s₁ = written s ∧ dequeued s₁ = dequeued s := by
    rcases hlog with hlog | ⟨e, he, hlog⟩
    · simp [passed, accepted, written, dequeued, hlog]
    · obtain ⟨h1, h2, h3, h4⟩ := silent_collect he
      simp [passed, accepted, written, dequeued, hlog, h1, h2, h3, h4]
  obtain ⟨h1, h2, h3, h4, h5⟩ := hsame
  exact ⟨hsize, h1, Or.inl hconn, hest, hclosed, hentered, Or.inl h4, Or.inl ⟨h5, fun _ => hch⟩,
    Or.inl h2, Or.inl h3⟩

theorem effect_enqueue {pkt : FrontendPacket} {k : AfterSend} {case : Case}
    (h : s.enqueue pkt case = some s₁) (hop : op = .tryEnqueue pkt k ∨ op = .blockedEnqueue pkt k) :
    Effect op s s₁ := by
  obtain ⟨h1, h2, h3, h4, h5, h6, h7, h8, h9, h10⟩ := enqueue_effect h
  refine ⟨h1, h2, Or.inl h3, by rw [h4]; exact id, by rw [h5]; exact id, by rw [h6]; exact id,
    Or.inl h7, Or.inl ⟨h8, fun hacc => ?_⟩, Or.inl h9, Or.inr ⟨pkt, k, hop⟩⟩
  rcases h10 with ⟨h10, -⟩ | ⟨-, h10, -⟩
  · rw [h10] at hacc
    simp at hacc
  · exact h10

theorem exec_effect (hex : exec s t c op = some (s₁, ops, start)) : Effect op s s₁ := by
  cases op with
  | send pkt k =>
      simp only [exec] at hex
      split at hex <;> cases hex
      next hfree =>
        refine ⟨rfl, List.subset_cons_self _ _, Or.inl rfl, id, id, id, Or.inl ?_,
          Or.inl ⟨?_, fun _ => rfl⟩, Or.inr ⟨⟨pkt, k, rfl⟩, hfree⟩, Or.inl ?_⟩
        all_goals simp [written, dequeued, accepted, Event.wroteBytes, Event.dequeuedPkt,
          Event.acceptedPkt]
  | closeConnected =>
      simp only [exec] at hex
      cases hex
      exact ⟨rfl, List.Subset.refl _, Or.inr ⟨rfl, rfl⟩, id, id, id, Or.inl rfl,
        Or.inl ⟨rfl, fun _ => rfl⟩, Or.inl rfl, Or.inl rfl⟩
  | tryEnqueue pkt k =>
      simp only [exec] at hex
      split at hex
      · split at hex <;> cases hex
        exact effect_quiet (Or.inl rfl) rfl rfl id id id rfl
      · obtain ⟨s', henq, heq⟩ := Option.map_eq_some_iff.mp hex
        cases heq
        exact effect_enqueue henq (Or.inl rfl)
  | blockedEnqueue pkt k =>
      simp only [exec] at hex
      obtain ⟨s', henq, heq⟩ := Option.map_eq_some_iff.mp hex
      cases heq
      exact effect_enqueue henq (Or.inr rfl)
  | connWrite b caller =>
      have hwrote : ∀ b', Effect (.connWrite b caller) s (s.record (.wrote b')) := by
        intro b'
        refine ⟨rfl, List.subset_cons_self _ _, Or.inl rfl, id, id, id, Or.inr ⟨b, caller, rfl, ?_⟩,
          Or.inl ⟨?_, fun _ => rfl⟩, Or.inl ?_, Or.inl ?_⟩
        · simp [written, Event.wroteBytes]
        all_goals simp [passed, dequeued, accepted, Event.passedPkt, Event.dequeuedPkt,
          Event.acceptedPkt]
      simp only [exec] at hex
      repeat' split at hex
      all_goals cases hex
      · exact effect_quiet (Or.inr ⟨_, rfl, rfl⟩) rfl rfl id id id rfl
      · exact effect_quiet (Or.inr ⟨_, rfl, rfl⟩) rfl rfl id id id rfl
      · exact hwrote _
      · exact hwrote _
  | writerSelect =>
      have hdeq : ∀ pkt ch, Effect .writerSelect s
          ({ s with writeCh := ch }.record (.dequeued pkt)) := by
        intro pkt ch
        refine ⟨rfl, List.subset_cons_self _ _, Or.inl rfl, id, id, id, Or.inl ?_, Or.inr ⟨rfl, ?_⟩,
          Or.inl ?_, Or.inl ?_⟩
        · simp [written, Event.wroteBytes]
        · simp [dequeued]
        all_goals simp [passed, accepted, Event.passedPkt, Event.acceptedPkt]
      simp only [exec] at hex
      split at hex
      · cases hex
        exact hdeq _ _
      · cases hex
        exact hdeq _ _
      · split at hex <;> cases hex
        exact effect_quiet (Or.inl rfl) rfl rfl id id id rfl
      · cases hex
  | _ =>
      simp only [exec] at hex
      repeat' split at hex
      all_goals cases hex
      all_goals first
        | exact effect_quiet (Or.inl rfl) rfl rfl id id id rfl
        | exact effect_quiet (Or.inl rfl) rfl rfl (fun _ => rfl) id id rfl
        | exact effect_quiet (Or.inl rfl) rfl rfl id (fun _ => rfl) id rfl
        | exact effect_quiet (Or.inl rfl) rfl rfl id id (fun _ => rfl) rfl
        | exact effect_quiet (Or.inr ⟨_, rfl, rfl⟩) rfl rfl id id id rfl

end Effects

/-! ## The invariant of a queued stream -/

/-- All that was passed was accepted, unless the stream was closed. -/
def Balanced (s : StreamState) : Prop :=
  passed s = accepted s ∨ (s.closed = true ∧ accepted s <+: passed s)

/-- The same while a packet is on its way into the queue. -/
def Passing (s : StreamState) (pkt : FrontendPacket) : Prop :=
  passed s = accepted s ++ [pkt] ∨ (s.closed = true ∧ accepted s <+: passed s)

/-- All that was dequeued was written. -/
def Caught (s : StreamState) (rest : Bytes) : Prop :=
  written s ++ rest = connectEstablished ++ syncBytes (dequeued s) ∧ .closeRsp ∉ dequeued s

structure QueueInv (s : StreamState) (H : Token → Prop) : Prop where
  size : 0 < s.queueSize
  fifo : accepted s = dequeued s ++ s.writeCh.buf
  wrote : written s <+: connectEstablished ++ syncBytes (dequeued s)
  ordered : .closeRsp ∈ dequeued s → written s = connectEstablished ++ syncBytes (dequeued s)
  unconnected : s.connected = false → passed s = [] ∧ accepted s = []
  connected : s.connected = true → connectEstablished <+: written s
  idle : ¬ H .lock → Balanced s
  closes : s.onceEntered = true → Clean s.log → .closeRsp ∈ dequeued s

/-- Why `close` is called. -/
def CloseCaller.Queued (s : StreamState) : CloseCaller → Prop
  | .send _ => False
  | .handshake => s.connected = false ∧ (Clean s.log → .closeRsp ∈ dequeued s)
  | _ => Clean s.log → .closeRsp ∈ dequeued s

/-- What an operation of a queued stream knows. -/
def Op.Queued (s : StreamState) : Op → Prop
  | .sendDialResponse => s.connected = false ∧ written s = []
  | .connWrite b .handshake => s.connected = false ∧ written s ++ b = connectEstablished
  | .startWriter => s.connected = false ∧ written s = connectEstablished
  | .closeConnected => s.connected = false ∧ connectEstablished <+: written s
  | .connWrite b .queued => Caught s b
  | .connWrite _ (.sync _) => False
  | .writerLoop | .writerSelect => Caught s []
  | .dispatch | .route _ | .dispatchExit => s.connected = true ∨ s.established = false
  | .send _ _ => s.connected = true
  | .streamSend pkt _ | .enqueueWrite pkt _ => s.connected = true ∧ Passing s pkt
  | .tryEnqueue pkt _ | .blockedEnqueue pkt _ =>
      s.connected = true ∧ passed s = accepted s ++ [pkt]
  | .unlock k => Balanced s ∧ (k = .dispatch → s.connected = true)
  | .close caller | .closeClosed caller | .connClose caller | .cancel caller | .onceDone caller =>
      caller.Queued s
  | _ => True

section Queued

variable {s s₁ : StreamState} {H : Token → Prop} {t : Tid} {c : Choice} {op o : Op}
  {ops : List Op} {start : Option (Tid × List Op)}

theorem Balanced.mono (h : Balanced s) (hp : passed s₁ = passed s) (ha : accepted s₁ = accepted s)
    (hc : s.closed = true → s₁.closed = true) : Balanced s₁ := by
  rw [Balanced, hp, ha]
  exact h.imp_right fun h => ⟨hc h.1, h.2⟩

theorem Passing.mono {pkt : FrontendPacket} (h : Passing s pkt) (hp : passed s₁ = passed s)
    (ha : accepted s₁ = accepted s) (hc : s.closed = true → s₁.closed = true) : Passing s₁ pkt := by
  rw [Passing, hp, ha]
  exact h.imp_right fun h => ⟨hc h.1, h.2⟩

theorem Effect.written_mono (he : Effect op s s₁) : written s <+: written s₁ := by
  rcases he.bytes with h | ⟨b, caller, -, h⟩
  · exact h.symm ▸ List.prefix_rfl
  · exact h

theorem Effect.dequeued_subset (he : Effect op s s₁) :
    dequeued s ⊆ dequeued s₁ := by
  rcases he.queue with ⟨h, -⟩ | ⟨-, h⟩
  · rw [h]
    exact List.Subset.refl _
  · exact h

theorem Effect.closer (he : Effect op s s₁) {caller : CloseCaller} (h : caller.Queued s)
    (hconn : .dispatcher ∈ caller.tokens → s₁.connected = s.connected) : caller.Queued s₁ := by
  have hwhy : (Clean s.log → .closeRsp ∈ dequeued s) →
      Clean s₁.log → .closeRsp ∈ dequeued s₁ :=
    fun h hclean => he.dequeued_subset (h (hclean.mono he.log))
  cases caller with
  | send k => exact h
  | handshake => exact ⟨(hconn (by simp [CloseCaller.tokens])).trans h.1, hwhy h.2⟩
  | nobody => exact hwhy h
  | writer => exact hwhy h

/-- What an operation knows is kept by operations with other tokens. -/
theorem Effect.queued (he : Effect op s s₁) (hop : op.Queued s)
    (hlock : .lock ∈ o.tokens → passed s₁ = passed s) (htok : ∀ k ∈ o.tokens, k ∉ op.tokens)
    (h : o.Queued s) : o.Queued s₁ := by
  have hconn : .dispatcher ∈ o.tokens → s₁.connected = s.connected := by
    intro hk
    refine he.connected.resolve_right ?_
    rintro ⟨rfl, -⟩
    exact htok _ hk (by simp [Op.tokens])
  have hconn' : s.connected = true → s₁.connected = true := by
    rcases he.connected with h | ⟨-, h⟩
    · rw [h]
      exact id
    · exact fun _ => h
  have hsocket : .socket ∈ o.tokens → written s₁ = written s ∧ dequeued s₁ = dequeued s := by
    intro hk
    refine ⟨he.bytes.resolve_right ?_, And.left (he.queue.resolve_right ?_)⟩
    · rintro ⟨b, caller, rfl, -⟩
      rcases caller with _ | k | _
      · exact htok _ hk (by simp [Op.tokens, WriteCaller.tokens])
      · exact hop
      · exact htok _ hk (by simp [Op.tokens, WriteCaller.tokens])
    · rintro ⟨rfl, -⟩
      exact htok _ hk (by simp [Op.tokens])
  have hpass : .lock ∈ o.tokens → passed s₁ = passed s ∧ accepted s₁ = accepted s := by
    intro hk
    refine ⟨hlock hk, he.accepts.resolve_right ?_⟩
    rintro ⟨pkt, k, rfl | rfl⟩ <;> exact htok _ hk List.mem_cons_self
  have hcaught : ∀ b, .socket ∈ o.tokens → Caught s b → Caught s₁ b := by
    intro b hk hb
    rw [Caught, (hsocket hk).1, (hsocket hk).2]
    exact hb
  have hclose : ∀ caller, (.dispatcher ∈ CloseCaller.tokens caller → .dispatcher ∈ o.tokens) →
      caller.Queued s → caller.Queued s₁ := fun caller hk hc => he.closer hc fun h => hconn (hk h)
  cases o with
  | sendDialResponse =>
      obtain ⟨h1, h2⟩ := hsocket (by simp [Op.tokens])
      exact ⟨(hconn (by simp [Op.tokens])).trans h.1, h1.trans h.2⟩
  | startWriter =>
      obtain ⟨h1, h2⟩ := hsocket (by simp [Op.tokens])
      exact ⟨(hconn (by simp [Op.tokens])).trans h.1, h1.trans h.2⟩
  | connWrite b caller =>
      rcases caller with _ | k | _
      · obtain ⟨h1, h2⟩ := hsocket (by simp [Op.tokens, WriteCaller.tokens])
        refine ⟨(hconn (by simp [Op.tokens, WriteCaller.tokens])).trans h.1, ?_⟩
        rw [h1]
        exact h.2
      · exact h
      · exact hcaught b (by simp [Op.tokens, WriteCaller.tokens]) h
  | closeConnected =>
      exact ⟨(hconn (by simp [Op.tokens])).trans h.1, h.2.trans he.written_mono⟩
  | writerLoop => exact hcaught [] (by simp [Op.tokens]) h
  | writerSelect => exact hcaught [] (by simp [Op.tokens]) h
  | dispatch => exact h.imp hconn' he.established
  | route pkt => exact h.imp hconn' he.established
  | dispatchExit => exact h.imp hconn' he.established
  | send pkt k => exact hconn' h
  | streamSend pkt k =>
      obtain ⟨h1, h2⟩ := hpass List.mem_cons_self
      exact ⟨hconn' h.1, h.2.mono h1 h2 he.closed⟩
  | enqueueWrite pkt k =>
      obtain ⟨h1, h2⟩ := hpass List.mem_cons_self
      exact ⟨hconn' h.1, h.2.mono h1 h2 he.closed⟩
  | tryEnqueue pkt k =>
      obtain ⟨h1, h2⟩ := hpass List.mem_cons_self
      refine ⟨hconn' h.1, ?_⟩
      rw [h1, h2]
      exact h.2
  | blockedEnqueue pkt k =>
      obtain ⟨h1, h2⟩ := hpass List.mem_cons_self
      refine ⟨hconn' h.1, ?_⟩
      rw [h1, h2]
      exact h.2
  | unlock k =>
      obtain ⟨h1, h2⟩ := hpass List.mem_cons_self
      exact ⟨h.1.mono h1 h2 he.closed, fun hk => hconn' (h.2 hk)⟩
  | close caller => exact hclose caller id h
  | closeClosed caller => exact hclose caller (List.mem_cons_of_mem _) h
  | connClose caller => exact hclose caller (List.mem_cons_of_mem _) h
  | cancel caller => exact hclose caller (List.mem_cons_of_mem _) h
  | onceDone caller => exact hclose caller (List.mem_cons_of_mem _) h
  | _ => trivial

/-- The operations that move packets or bytes. -/
def Op.moves : Op → Bool
  | .connWrite _ _ | .writerSelect | .tryEnqueue _ _ | .blockedEnqueue _ _ | .send _ _ => true
  | .closeConnected => true
  | _ => false

theorem Effect.still (he : Effect op s s₁) (hop : op.moves = false) :
    written s₁ = written s ∧ dequeued s₁ = dequeued s ∧ accepted s₁ = accepted s ∧
      passed s₁ = passed s ∧ s₁.writeCh = s.writeCh ∧ s₁.connected = s.connected := by
  have hacc : accepted s₁ = accepted s := by
    refine he.accepts.resolve_right ?_
    rintro ⟨pkt, k, rfl | rfl⟩ <;> cases hop
  obtain ⟨hdeq, hch⟩ := he.queue.resolve_right (by rintro ⟨rfl, -⟩; cases hop)
  refine ⟨he.bytes.resolve_right ?_, hdeq, hacc, he.sends.resolve_right ?_, hch hacc,
    he.connected.resolve_right ?_⟩
  · rintro ⟨b, caller, rfl, -⟩
    cases hop
  · rintro ⟨⟨pkt, k, rfl⟩, -⟩
    cases hop
  · rintro ⟨rfl, -⟩
    cases hop

theorem QueueInv.still (h : QueueInv s H) (he : Effect op s s₁) (hop : op.moves = false)
    {H' : Token → Prop} (hidle : ¬ H' .lock → Balanced s)
    (hcloses : s₁.onceEntered = true → s.onceEntered = true ∨
      (Clean s.log → .closeRsp ∈ dequeued s)) :
    QueueInv s₁ H' := by
  obtain ⟨h1, h2, h3, h4, h5, h6⟩ := he.still hop
  refine ⟨he.size ▸ h.size, ?_, ?_, ?_, ?_, ?_, fun hl => (hidle hl).mono h4 h3 he.closed,
    fun hent hclean => ?_⟩
  · rw [h3, h2, h5]
    exact h.fifo
  · rw [h1, h2]
    exact h.wrote
  · rw [h1, h2]
    exact h.ordered
  · rw [h3, h4, h6]
    exact h.unconnected
  · rw [h1, h6]
    exact h.connected
  · rw [h2]
    rcases hcloses hent with hent | hwhy
    · exact h.closes hent (hclean.mono he.log)
    · exact hwhy (hclean.mono he.log)

/-- An operation that moves nothing and leaves the lock with whoever has it. -/
theorem QueueInv.quiet (h : QueueInv s H) (he : Effect op s s₁) (hop : op.moves = false)
    (hlock : .lock ∈ op.tokens → .lock ∈ ops.flatMap Op.tokens)
    (hent : s₁.onceEntered = s.onceEntered) :
    QueueInv s₁ fun k => k ∈ ops.flatMap Op.tokens ++ Pool.startTokens Op.tokens start ∨
      (H k ∧ k ∉ op.tokens) := by
  refine h.still he hop (fun hl => h.idle fun hH => hl ?_) fun hc => Or.inl (hent ▸ hc)
  by_cases hk : .lock ∈ op.tokens
  · exact Or.inl (List.mem_append_left _ (hlock hk))
  · exact Or.inr ⟨hH, hk⟩

/-- Without a move in the log. -/
theorem QueueInv.recorded (h : QueueInv s H) {e : Event} (he : e.silent = true)
    {H' : Token → Prop} (hidle : ¬ H' .lock → Balanced s) : QueueInv (s.record e) H' := by
  have heff : Effect .afterFunc s (s.record e) :=
    effect_quiet (Or.inr ⟨e, he, rfl⟩) rfl rfl id id id rfl
  exact h.still heff rfl hidle fun hc => Or.inl hc

theorem send_record (s : StreamState) (t : Tid) (pkt : FrontendPacket) :
    written ({ s with sendLock := some t }.record (.passed t pkt)) = written s ∧
      dequeued ({ s with sendLock := some t }.record (.passed t pkt)) = dequeued s ∧
      accepted ({ s with sendLock := some t }.record (.passed t pkt)) = accepted s ∧
      passed ({ s with sendLock := some t }.record (.passed t pkt)) = passed s ++ [pkt] := by
  simp [written, dequeued, accepted, passed, Event.wroteBytes, Event.dequeuedPkt,
    Event.acceptedPkt, Event.passedPkt]

/-- `Send` is called and has the lock. -/
theorem QueueInv.exec_send (h : QueueInv s H) {pkt : FrontendPacket} (hconn : s.connected = true)
    {H' : Token → Prop} (hlock : H' .lock) :
    QueueInv ({ s with sendLock := some t }.record (.passed t pkt)) H' := by
  obtain ⟨h1, h2, h3, -⟩ := send_record s t pkt
  refine ⟨h.size, ?_, ?_, ?_, fun hc => ?_, fun hc => ?_, fun hl => absurd hlock hl,
    fun hent hclean => ?_⟩
  · rw [h2, h3]
    exact h.fifo
  · rw [h1, h2]
    exact h.wrote
  · rw [h1, h2]
    exact h.ordered
  · have hc : s.connected = false := hc
    rw [hconn] at hc
    cases hc
  · rw [h1]
    exact h.connected hc
  · rw [h2]
    exact h.closes hent (hclean.mono (List.subset_cons_self _ _))

theorem Balanced.passing (h : Balanced s) (t : Tid) (pkt : FrontendPacket) :
    Passing ({ s with sendLock := some t }.record (.passed t pkt)) pkt := by
  obtain ⟨-, -, h3, h4⟩ := send_record s t pkt
  rw [Passing, h3, h4]
  refine h.imp (fun heq => ?_) fun hb => ⟨hb.1, hb.2.trans (List.prefix_append _ _)⟩
  rw [heq]

theorem QueueInv.exec_enqueue (h : QueueInv s H) {pkt : FrontendPacket} {k : AfterSend}
    {case : Case} (henq : s.enqueue pkt case = some s₁) (hconn : s.connected = true)
    (hpass : passed s = accepted s ++ [pkt]) {H' : Token → Prop} :
    QueueInv s₁ H' ∧ Op.Queued s₁ (.unlock k) := by
  obtain ⟨h1, h2, h3, h4, h5, h6, h7, h8, h9, h10⟩ := enqueue_effect henq
  have hbal : Balanced s₁ := by
    rcases h10 with ⟨ha, -⟩ | ⟨ha, -, hc⟩
    · exact Or.inl (by rw [h9, hpass, ha])
    · exact Or.inr ⟨h5.trans hc, by rw [h9, hpass, ha]; exact List.prefix_append _ _⟩
  refine ⟨⟨h1 ▸ h.size, ?_, ?_, ?_, fun hc => ?_, ?_, fun _ => hbal, fun hent hclean => ?_⟩, hbal,
    fun _ => h3.trans hconn⟩
  · rcases h10 with ⟨ha, hb⟩ | ⟨ha, hb, -⟩
    · rw [ha, h8, hb, h.fifo, List.append_assoc]
    · rw [ha, h8, hb]
      exact h.fifo
  · rw [h7, h8]
    exact h.wrote
  · rw [h7, h8]
    exact h.ordered
  · rw [h3, hconn] at hc
    cases hc
  · rw [h7, h3]
    exact h.connected
  · rw [h8]
    exact h.closes (h6 ▸ hent) (hclean.mono h2)

theorem QueueInv.weaken (h : QueueInv s H) {H' : Token → Prop} (hidle : ¬ H' .lock → ¬ H .lock) :
    QueueInv s H' :=
  { h with idle := fun hl => h.idle (hidle hl) }

theorem QueueInv.exec_dequeue (h : QueueInv s H) (hcaught : Caught s []) {pkt : FrontendPacket}
    {buf : List FrontendPacket} (hbuf : s.writeCh.buf = pkt :: buf) (hs₁ : s₁ =
      ({ s with writeCh := { s.writeCh with buf := buf } } : StreamState).record (.dequeued pkt)) :
    QueueInv s₁ H ∧ (∀ b, pkt = .data b → Caught s₁ b) ∧ dequeued s₁ = dequeued s ++ [pkt] := by
  have hsame : written s₁ = written s ∧ dequeued s₁ = dequeued s ++ [pkt] ∧
      accepted s₁ = accepted s ∧ passed s₁ = passed s ∧ s₁.connected = s.connected := by
    subst hs₁
    simp [written, dequeued, accepted, passed, Event.wroteBytes, Event.dequeuedPkt,
      Event.acceptedPkt, Event.passedPkt]
  obtain ⟨h1, h2, h3, h4, h5⟩ := hsame
  obtain ⟨hw, hc⟩ := hcaught
  rw [List.append_nil] at hw
  have hbytes : syncBytes (dequeued s ++ [pkt]) = syncBytes (dequeued s) ++ syncBytes [pkt] :=
    syncBytes_append hc _
  refine ⟨⟨?_, ?_, ?_, fun hin => ?_, ?_, ?_, fun hl => ?_, fun hent hclean => ?_⟩, ?_, h2⟩
  · subst hs₁
    exact h.size
  · rw [h3, h2, h.fifo, hbuf, List.append_assoc]
    subst hs₁
    rfl
  · rw [h1, h2, hw]
    exact (List.prefix_append_right_inj _).mpr (syncBytes_mono (List.prefix_append _ _))
  · rw [h2] at hin
    have hrsp : pkt = .closeRsp :=
      (List.mem_singleton.mp ((List.mem_append.mp hin).resolve_left hc)).symm
    rw [h1, h2, hw, hbytes, hrsp]
    simp [syncBytes]
  · rw [h3, h4, h5]
    exact h.unconnected
  · rw [h1, h5]
    exact h.connected
  · refine (h.idle hl).mono h4 h3 ?_
    subst hs₁
    exact id
  · rw [h2]
    refine List.mem_append_left _ ?_
    subst hs₁
    exact h.closes hent (hclean.mono (List.subset_cons_self _ _))
  · rintro b rfl
    rw [Caught, h1, h2, hw, hbytes]
    exact ⟨by simp [syncBytes], by simpa using hc⟩

theorem wrote_record (s : StreamState) (b : Bytes) :
    written (s.record (.wrote b)) = written s ++ b ∧
      dequeued (s.record (.wrote b)) = dequeued s ∧ accepted (s.record (.wrote b)) = accepted s ∧
      passed (s.record (.wrote b)) = passed s := by
  simp [written, dequeued, accepted, passed, Event.wroteBytes, Event.dequeuedPkt,
    Event.acceptedPkt, Event.passedPkt]

/-- Some bytes go to the socket. -/
theorem QueueInv.exec_wrote (h : QueueInv s H) {b : Bytes} {H' : Token → Prop}
    (hidle : ¬ H' .lock → Balanced s)
    (hwrote : written s ++ b <+: connectEstablished ++ syncBytes (dequeued s))
    (hopen : .closeRsp ∉ dequeued s) : QueueInv (s.record (.wrote b)) H' := by
  obtain ⟨h1, h2, h3, h4⟩ := wrote_record s b
  refine ⟨h.size, ?_, ?_, fun hin => ?_, fun hc => ?_, fun hc => ?_,
    fun hl => (hidle hl).mono h4 h3 id, fun hent hclean => ?_⟩
  · rw [h2, h3]
    exact h.fifo
  · rw [h1, h2]
    exact hwrote
  · rw [h2] at hin
    exact absurd hin hopen
  · rw [h3, h4]
    exact h.unconnected hc
  · rw [h1]
    exact (h.connected hc).trans (List.prefix_append _ _)
  · rw [h2]
    exact h.closes hent (hclean.mono (List.subset_cons_self _ _))

/-- What `close` is going to be called for. -/
theorem QueueInv.why (h : QueueInv s H) (hS : StreamInv s H)
    (hclosed : s.closed = true ∨ s.socketClosed = true) (hclean : Clean s.log) :
    .closeRsp ∈ dequeued s := by
  refine h.closes ?_ hclean
  cases hent : s.onceEntered with
  | true => rfl
  | false =>
      obtain ⟨-, h1, h2⟩ := hS.fresh hent
      rcases hclosed with hc | hc
      · rw [h1] at hc
        cases hc
      · rw [h2] at hc
        cases hc

/-- A write that fails leads to `close`. -/
theorem QueueInv.failed (h : QueueInv s H) (hS : StreamInv s H) {closed : Bool}
    (hclosed : closed = true → s.socketClosed = true) :
    Clean (s.record (.writeFailed closed)).log →
      .closeRsp ∈ dequeued (s.record (.writeFailed closed)) := by
  intro hclean
  cases closed with
  | false => exact absurd List.mem_cons_self hclean.2.2
  | true =>
      have hin := h.why hS (Or.inr (hclosed rfl)) (hclean.mono (List.subset_cons_self _ _))
      simpa [dequeued, Event.dequeuedPkt] using hin

theorem QueueInv.dequeued_unconnected (h : QueueInv s H) (hconn : s.connected = false) :
    dequeued s = [] := by
  have hacc := (h.unconnected hconn).2
  rw [h.fifo] at hacc
  exact (List.append_eq_nil_iff.mp hacc).1

theorem QueueInv.exec_handshake (h : QueueInv s H) (hS : StreamInv s H) {b : Bytes}
    (hop : Op.Queued s (.connWrite b .handshake))
    (hex : exec s t c (.connWrite b .handshake) = some (s₁, ops, start)) :
    QueueInv s₁ (fun k => k ∈ ops.flatMap Op.tokens ++ Pool.startTokens Op.tokens start ∨
        (H k ∧ k ∉ WriteCaller.tokens .handshake)) ∧ (∀ o ∈ ops, o.Queued s₁) ∧ start = none := by
  obtain ⟨hconn, hbytes⟩ := hop
  have hdeq := h.dequeued_unconnected hconn
  have hpre : ∀ b', b' <+: b →
      written s ++ b' <+: connectEstablished ++ syncBytes (dequeued s) := by
    intro b' hb'
    rw [hdeq, ← hbytes, syncBytes, List.append_nil]
    exact (List.prefix_append_right_inj _).mpr hb'
  have hnot : .closeRsp ∉ dequeued s := by
    rw [hdeq]
    exact List.not_mem_nil
  have hbal : Balanced s := by
    obtain ⟨h1, h2⟩ := h.unconnected hconn
    exact Or.inl (h1.trans h2.symm)
  simp only [exec] at hex
  repeat' split at hex
  all_goals cases hex
  · next hc =>
      refine ⟨h.recorded rfl fun _ => hbal, fun o ho => ?_, rfl⟩
      rw [List.mem_singleton.mp ho]
      exact ⟨hconn, h.failed hS fun _ => hc⟩
  · refine ⟨h.recorded rfl fun _ => hbal, fun o ho => ?_, rfl⟩
    rw [List.mem_singleton.mp ho]
    exact ⟨hconn, h.failed hS (fun h => by cases h)⟩
  · refine ⟨h.exec_wrote (fun _ => hbal) (hpre b List.prefix_rfl) hnot, fun o ho => ?_, rfl⟩
    rw [List.mem_singleton.mp ho]
    exact ⟨hconn, (wrote_record s b).1.trans hbytes⟩
  · refine ⟨h.exec_wrote (fun _ => hbal) (hpre _ (List.take_prefix _ b)) hnot, fun o ho => ?_, rfl⟩
    rw [List.mem_singleton.mp ho]
    refine ⟨hconn, ?_⟩
    rw [(wrote_record s _).1, List.append_assoc, List.take_append_drop]
    exact hbytes

theorem QueueInv.exec_write (h : QueueInv s H) (hS : StreamInv s H) {b : Bytes}
    (hop : Op.Queued s (.connWrite b .queued))
    (hex : exec s t c (.connWrite b .queued) = some (s₁, ops, start)) :
    QueueInv s₁ (fun k => k ∈ ops.flatMap Op.tokens ++ Pool.startTokens Op.tokens start ∨
        (H k ∧ k ∉ WriteCaller.tokens .queued)) ∧ (∀ o ∈ ops, o.Queued s₁) ∧ start = none := by
  obtain ⟨hbytes, hnot⟩ := hop
  have hpre : ∀ b', b' <+: b →
      written s ++ b' <+: connectEstablished ++ syncBytes (dequeued s) := by
    intro b' hb'
    rw [← hbytes]
    exact (List.prefix_append_right_inj _).mpr hb'
  have hidle : ∀ {new : List Token},
      ¬ (.lock ∈ new ∨ (H .lock ∧ .lock ∉ WriteCaller.tokens .queued)) →
      Balanced s := fun hl => h.idle fun hH => hl (Or.inr ⟨hH, by simp [WriteCaller.tokens]⟩)
  simp only [exec] at hex
  repeat' split at hex
  all_goals cases hex
  · next hc =>
      refine ⟨h.recorded rfl hidle, fun o ho => ?_, rfl⟩
      rw [List.mem_singleton.mp ho]
      exact h.failed hS fun _ => hc
  · refine ⟨h.recorded rfl hidle, fun o ho => ?_, rfl⟩
    rw [List.mem_singleton.mp ho]
    exact h.failed hS (fun h => by cases h)
  · obtain ⟨h2, h3, -⟩ := wrote_record s b
    refine ⟨h.exec_wrote hidle (hpre b List.prefix_rfl) hnot, fun o ho => ?_, rfl⟩
    rw [List.mem_singleton.mp ho]
    refine ⟨?_, h3 ▸ hnot⟩
    rw [h2, h3, List.append_nil]
    exact hbytes
  · next n _ _ =>
      obtain ⟨h2, h3, -⟩ := wrote_record s (b.take n)
      refine ⟨h.exec_wrote hidle (hpre _ (List.take_prefix _ b)) hnot, fun o ho => ?_, rfl⟩
      rw [List.mem_singleton.mp ho]
      refine ⟨?_, h3 ▸ hnot⟩
      rw [h2, h3, List.append_assoc, List.take_append_drop]
      exact hbytes

/-- What a step of a queued stream leaves behind. -/
structure QueueKept (s s₁ : StreamState) (H : Token → Prop) (op : Op) (ops : List Op)
    (start : Option (Tid × List Op)) : Prop where
  inv : QueueInv s₁ fun k => k ∈ ops.flatMap Op.tokens ++ Pool.startTokens Op.tokens start ∨
    (H k ∧ k ∉ op.tokens)
  queued : ∀ o ∈ ops, o.Queued s₁
  started : System.StartOk (fun _ o => Op.Queued s₁ o) start

/-- The steps of `close`. -/
theorem QueueInv.exec_close (h : QueueInv s H) {caller : CloseCaller} (hop : caller.Queued s)
    (hkind : op = .close caller ∨ op = .closeClosed caller ∨ op = .connClose caller ∨
      op = .cancel caller ∨ op = .onceDone caller)
    (hex : exec s t c op = some (s₁, ops, start)) : QueueKept s s₁ H op ops start := by
  have he := exec_effect hex
  have hmoves : op.moves = false := by
    rcases hkind with rfl | rfl | rfl | rfl | rfl <;> rfl
  have hcaller : caller.Queued s₁ := he.closer hop fun _ => (he.still hmoves).2.2.2.2.2
  have hwhy : Clean s.log → .closeRsp ∈ dequeued s := by
    cases caller with
    | send k => exact hop.elim
    | handshake => exact hop.2
    | nobody => exact hop
    | writer => exact hop
  have hreturned : ∀ o ∈ caller.returned, o.Queued s₁ := by
    cases caller with
    | send k => exact hop.elim
    | handshake =>
        intro o ho
        rw [List.mem_singleton.mp ho]
        obtain ⟨h1, h2⟩ := h.unconnected hop.1
        obtain ⟨-, -, h3, h4, -, -⟩ := he.still hmoves
        exact ⟨Or.inl (by rw [h3, h4, h1, h2]), (fun h => nomatch h)⟩
    | nobody => exact fun o ho => nomatch ho
    | writer =>
        intro o ho
        rw [List.mem_singleton.mp ho]
        trivial
  have hlock : .lock ∈ op.tokens → .lock ∈ caller.tokens := by
    rcases hkind with rfl | rfl | rfl | rfl | rfl
    · exact id
    all_goals exact fun hk => (List.mem_cons.mp hk).resolve_left (by simp)
  have hback : .lock ∈ caller.tokens → .lock ∈ caller.returned.flatMap Op.tokens := by
    cases caller with
    | send k => exact fun _ => hop.elim
    | handshake => exact fun _ => List.mem_cons_self
    | nobody => exact fun hk => nomatch hk
    | writer => exact fun hk => nomatch hk
  have hidle : ∀ {new : List Token}, (.lock ∈ op.tokens → .lock ∈ new) →
      ¬ (.lock ∈ new ++ Pool.startTokens Op.tokens start ∨ (H .lock ∧ .lock ∉ op.tokens)) →
      Balanced s := by
    intro new hnew hl
    refine h.idle fun hH => hl ?_
    by_cases hk : .lock ∈ op.tokens
    · exact Or.inl (List.mem_append_left _ (hnew hk))
    · exact Or.inr ⟨hH, hk⟩
  have hone : ∀ o : Op, o.tokens = .once :: caller.tokens → .lock ∈ op.tokens →
      .lock ∈ [o].flatMap Op.tokens := by
    intro o ho hk
    rw [List.flatMap_cons, ho]
    exact List.mem_append_left _ (List.mem_cons_of_mem _ (hlock hk))
  rcases hkind with rfl | rfl | rfl | rfl | rfl
  · simp only [HttpConnect.exec] at hex
    split at hex
    · cases hex
      exact ⟨h.still he rfl (hidle fun hk => hback hk) fun hc => Or.inl hc, hreturned, trivial⟩
    · split at hex <;> cases hex
      refine ⟨h.still he rfl (hidle (hone _ rfl)) fun _ => Or.inr hwhy, fun o ho => ?_, trivial⟩
      rw [List.mem_singleton.mp ho]
      exact hcaller
  · simp only [HttpConnect.exec] at hex
    cases hex
    refine ⟨h.still he rfl (hidle (hone _ rfl)) fun hc => Or.inl hc, fun o ho => ?_, trivial⟩
    rw [List.mem_singleton.mp ho]
    exact hcaller
  · simp only [HttpConnect.exec] at hex
    cases hex
    refine ⟨h.still he rfl (hidle (hone _ rfl)) fun hc => Or.inl hc, fun o ho => ?_, trivial⟩
    rw [List.mem_singleton.mp ho]
    exact hcaller
  · simp only [HttpConnect.exec] at hex
    cases hex
    refine ⟨h.still he rfl (hidle (hone _ rfl)) fun hc => Or.inl hc, fun o ho => ?_, trivial⟩
    rw [List.mem_singleton.mp ho]
    exact hcaller
  · simp only [HttpConnect.exec] at hex
    cases hex
    exact ⟨h.still he rfl (hidle fun hk => hback (hlock hk)) fun hc => Or.inl hc, hreturned,
      trivial⟩

theorem QueueInv.kept_tryEnqueue (h : QueueInv s H) {pkt : FrontendPacket}
    {k : AfterSend} (hop : Op.Queued s (.tryEnqueue pkt k))
    (hex : exec s t c (.tryEnqueue pkt k) = some (s₁, ops, start)) :
    QueueKept s s₁ H (.tryEnqueue pkt k) ops start := by
  simp only [HttpConnect.exec] at hex
  split at hex
  · split at hex <;> cases hex
    refine ⟨h.weaken fun hl => absurd (Or.inl List.mem_cons_self) hl, fun o ho => ?_, trivial⟩
    rw [List.mem_singleton.mp ho]
    exact hop
  · obtain ⟨s', henq, heq⟩ := Option.map_eq_some_iff.mp hex
    cases heq
    obtain ⟨h1, h2⟩ := h.exec_enqueue henq hop.1 hop.2
    refine ⟨h1, fun o ho => ?_, trivial⟩
    rw [List.mem_singleton.mp ho]
    exact h2

theorem QueueInv.kept_closeConnected (h : QueueInv s H)
    (hop : Op.Queued s .closeConnected) (hex : exec s t c .closeConnected = some (s₁, ops, start)) :
    QueueKept s s₁ H .closeConnected ops start := by
  simp only [HttpConnect.exec] at hex
  cases hex
  obtain ⟨hconn, hwrote⟩ := hop
  obtain ⟨h1, h2⟩ := h.unconnected hconn
  have hbal : Balanced { s with connected := true } := Or.inl (h1.trans h2.symm)
  refine ⟨⟨h.size, h.fifo, h.wrote, h.ordered, (fun hc => by cases hc), fun _ => hwrote,
    fun _ => hbal, h.closes⟩, fun o ho => ?_, trivial⟩
  rw [List.mem_singleton.mp ho]
  exact ⟨hbal, fun _ => rfl⟩

theorem QueueInv.kept_writerSelect (h : QueueInv s H) (hS : StreamInv s H)
    (hop : Op.Queued s .writerSelect) (hex : exec s t c .writerSelect = some (s₁, ops, start)) :
    QueueKept s s₁ H .writerSelect ops start := by
  have hidle : ∀ {new : List Token},
      ¬ (.lock ∈ new ∨ (H .lock ∧ .lock ∉ Op.tokens .writerSelect)) → ¬ H .lock :=
    fun hl hH => hl (Or.inr ⟨hH, by simp [Op.tokens]⟩)
  simp only [HttpConnect.exec] at hex
  split at hex
  · next b buf _ hbuf =>
      cases hex
      obtain ⟨h1, h2, -⟩ := h.exec_dequeue hop hbuf rfl
      refine ⟨h1.weaken hidle, fun o ho => ?_, trivial⟩
      rw [List.mem_singleton.mp ho]
      exact h2 b rfl
  · next buf _ hbuf =>
      cases hex
      obtain ⟨h1, -, h3⟩ := h.exec_dequeue hop hbuf rfl
      refine ⟨h1.weaken hidle, fun o ho => ?_, trivial⟩
      rw [List.mem_singleton.mp ho]
      intro _
      rw [h3]
      exact List.mem_append_right _ List.mem_cons_self
  · split at hex <;> cases hex
    next hclosed =>
      refine ⟨h.weaken hidle, fun o ho => ?_, trivial⟩
      rw [List.mem_singleton.mp ho]
      exact h.why hS (Or.inl hclosed)
  · cases hex

theorem QueueInv.kept_startWriter (h : QueueInv s H)
    (hop : Op.Queued s .startWriter) (hex : exec s t c .startWriter = some (s₁, ops, start)) :
    QueueKept s s₁ H .startWriter ops start := by
  have he := exec_effect hex
  simp only [HttpConnect.exec] at hex
  cases hex
  obtain ⟨hconn, hwrote⟩ := hop
  have hdeq := h.dequeued_unconnected hconn
  refine ⟨h.quiet he rfl (fun _ => List.mem_cons_self) rfl, fun o ho => ?_, ?_⟩
  · rw [List.mem_singleton.mp ho]
    exact ⟨hconn, hwrote ▸ List.prefix_rfl⟩
  · rw [if_pos h.size]
    intro o ho
    rw [List.mem_singleton.mp ho, Op.Queued, Caught, hdeq, hwrote]
    exact ⟨by simp [syncBytes], List.not_mem_nil⟩

theorem QueueInv.kept_streamSend (h : QueueInv s H) {pkt : FrontendPacket}
    {k : AfterSend} (hop : Op.Queued s (.streamSend pkt k))
    (hex : exec s t c (.streamSend pkt k) = some (s₁, ops, start)) :
    QueueKept s s₁ H (.streamSend pkt k) ops start := by
  obtain ⟨hconn, hpass⟩ := hop
  have hkept : QueueKept s s H (.streamSend pkt k) [.enqueueWrite pkt k] none := by
    refine ⟨h.quiet (effect_quiet (Or.inl rfl) rfl rfl id id id rfl) rfl
      (fun _ => List.mem_cons_self) rfl, fun o ho => ?_, trivial⟩
    rw [List.mem_singleton.mp ho]
    exact ⟨hconn, hpass⟩
  simp only [HttpConnect.exec] at hex
  repeat' split at hex
  all_goals cases hex
  · next hz => exact absurd hz (Nat.ne_of_gt h.size)
  · exact hkept
  · exact hkept
  · next hn => exact absurd ⟨h.size, hconn⟩ hn

theorem QueueInv.kept_enqueueWrite (h : QueueInv s H) {pkt : FrontendPacket}
    {k : AfterSend} (hop : Op.Queued s (.enqueueWrite pkt k))
    (hex : exec s t c (.enqueueWrite pkt k) = some (s₁, ops, start)) :
    QueueKept s s₁ H (.enqueueWrite pkt k) ops start := by
  have he := exec_effect hex
  obtain ⟨hconn, hpass⟩ := hop
  simp only [HttpConnect.exec] at hex
  split at hex <;> cases hex
  · next hclosed =>
      refine ⟨h.quiet he rfl (fun _ => List.mem_cons_self) rfl, fun o ho => ?_, trivial⟩
      rw [List.mem_singleton.mp ho]
      refine ⟨?_, fun _ => hconn⟩
      obtain ⟨-, -, h3, h4, -, -⟩ := he.still rfl
      refine Or.inr ⟨hclosed, ?_⟩
      rw [h3, h4]
      rcases hpass with hpass | ⟨-, hpass⟩
      · rw [hpass]
        exact List.prefix_append _ _
      · exact hpass
  · next hopen =>
      refine ⟨h.quiet he rfl (fun _ => List.mem_cons_self) rfl, fun o ho => ?_, trivial⟩
      rw [List.mem_singleton.mp ho]
      exact ⟨hconn, hpass.resolve_right fun hc => hopen hc.1⟩

theorem QueueInv.kept_unlock (h : QueueInv s H) {k : AfterSend}
    (hop : Op.Queued s (.unlock k)) (hex : exec s t c (.unlock k) = some (s₁, ops, start)) :
    QueueKept s s₁ H (.unlock k) ops start := by
  have he := exec_effect hex
  simp only [HttpConnect.exec] at hex
  cases hex
  refine ⟨h.still he rfl (fun _ => hop.1) Or.inl, fun o ho => ?_, trivial⟩
  cases k with
  | nobody => cases ho
  | exited => cases ho
  | dispatch =>
      rw [List.mem_singleton.mp ho]
      exact Or.inl (hop.2 rfl)
  | removeEstablished =>
      rw [List.mem_singleton.mp ho]
      trivial

theorem QueueInv.kept_writerLoop (h : QueueInv s H) (hS : StreamInv s H)
    (hop : Op.Queued s .writerLoop) (hex : exec s t c .writerLoop = some (s₁, ops, start)) :
    QueueKept s s₁ H .writerLoop ops start := by
  have he := exec_effect hex
  simp only [HttpConnect.exec] at hex
  cases hex
  refine ⟨h.quiet he rfl (by simp [Op.tokens]) rfl, fun o ho => ?_, trivial⟩
  split at ho
  · next hclosed =>
      rw [List.mem_singleton.mp ho]
      exact h.why hS (Or.inl hclosed)
  · rw [List.mem_singleton.mp ho]
    exact hop

theorem QueueInv.kept_route (h : QueueInv s H) {pkt : FrontendPacket}
    (hop : Op.Queued s (.route pkt)) (hex : exec s t c (.route pkt) = some (s₁, ops, start)) :
    QueueKept s s₁ H (.route pkt) ops start := by
  have he := exec_effect hex
  simp only [HttpConnect.exec] at hex
  repeat' split at hex
  all_goals cases hex
  · next hest _ _ =>
      refine ⟨h.quiet he rfl (by simp [Op.tokens]) rfl, fun o ho => ?_, trivial⟩
      rw [List.mem_singleton.mp ho]
      exact hop.resolve_right fun hf => by rw [hest] at hf; cases hf
  · next hest _ =>
      refine ⟨h.quiet he rfl (by simp [Op.tokens]) rfl, fun o ho => ?_, trivial⟩
      rw [List.mem_singleton.mp ho]
      exact hop.resolve_right fun hf => by rw [hest] at hf; cases hf
  · refine ⟨h.quiet he rfl (by simp [Op.tokens]) rfl, fun o ho => ?_, trivial⟩
    rw [List.mem_singleton.mp ho]
    exact hop

theorem QueueInv.exec (h : QueueInv s H) (hS : StreamInv s H) (hop : op.Queued s)
    (hown : ∀ k ∈ op.tokens, H k) (hex : exec s t c op = some (s₁, ops, start)) :
    QueueKept s s₁ H op ops start := by
  have he := exec_effect hex
  cases op with
  | connWrite b caller =>
      rcases caller with _ | k | _
      · obtain ⟨h1, h2, rfl⟩ := h.exec_handshake hS hop hex
        exact ⟨h1, h2, trivial⟩
      · exact hop.elim
      · obtain ⟨h1, h2, rfl⟩ := h.exec_write hS hop hex
        exact ⟨h1, h2, trivial⟩
  | send pkt k =>
      simp only [HttpConnect.exec] at hex
      split at hex <;> cases hex
      next hfree =>
        have hbal := h.idle fun hH => hfree (hS.lock hH)
        refine ⟨h.exec_send hop (Or.inl List.mem_cons_self), fun o ho => ?_, trivial⟩
        rw [List.mem_singleton.mp ho]
        exact ⟨hop, hbal.passing t pkt⟩
  | tryEnqueue pkt k => exact h.kept_tryEnqueue hop hex
  | blockedEnqueue pkt k =>
      simp only [HttpConnect.exec] at hex
      obtain ⟨s', henq, heq⟩ := Option.map_eq_some_iff.mp hex
      cases heq
      obtain ⟨h1, h2⟩ := h.exec_enqueue henq hop.1 hop.2
      refine ⟨h1, fun o ho => ?_, trivial⟩
      rw [List.mem_singleton.mp ho]
      exact h2
  | closeConnected => exact h.kept_closeConnected hop hex
  | writerSelect => exact h.kept_writerSelect hS hop hex
  | close caller => exact h.exec_close hop (Or.inl rfl) hex
  | closeClosed caller => exact h.exec_close hop (Or.inr (Or.inl rfl)) hex
  | connClose caller => exact h.exec_close hop (Or.inr (Or.inr (Or.inl rfl))) hex
  | cancel caller => exact h.exec_close hop (Or.inr (Or.inr (Or.inr (Or.inl rfl)))) hex
  | onceDone caller => exact h.exec_close hop (Or.inr (Or.inr (Or.inr (Or.inr rfl)))) hex
  | startWriter => exact h.kept_startWriter hop hex
  | sendDialResponse =>
      simp only [HttpConnect.exec] at hex
      split at hex <;> cases hex
      refine ⟨h.quiet he rfl (by simp [Op.tokens]) rfl, fun o ho => ?_, trivial⟩
      rw [List.mem_singleton.mp ho]
      refine ⟨hop.1, ?_⟩
      change written s ++ _ = _
      rw [hop.2, List.nil_append]
  | streamSend pkt k => exact h.kept_streamSend hop hex
  | enqueueWrite pkt k => exact h.kept_enqueueWrite hop hex
  | unlock k => exact h.kept_unlock hop hex
  | afterFunc =>
      simp only [HttpConnect.exec] at hex
      split at hex <;> cases hex
      · exact ⟨h.quiet he rfl (by simp [Op.tokens]) rfl, (fun o ho => by cases ho), trivial⟩
      · refine ⟨h.quiet he rfl (by simp [Op.tokens]) rfl, fun o ho => ?_, trivial⟩
        rw [List.mem_singleton.mp ho]
        exact fun hclean => absurd List.mem_cons_self hclean.2.1
  | writerLoop => exact h.kept_writerLoop hS hop hex
  | route pkt => exact h.kept_route hop hex
  | dispatchExit =>
      simp only [HttpConnect.exec] at hex
      split at hex <;> cases hex
      · next hest =>
          refine ⟨h.quiet he rfl (by simp [Op.tokens]) rfl, fun o ho => ?_, trivial⟩
          rw [List.mem_singleton.mp ho]
          exact hop.resolve_right fun hf => by rw [hest] at hf; cases hf
      · exact ⟨h.quiet he rfl (by simp [Op.tokens]) rfl, (fun o ho => by cases ho), trivial⟩
  | dispatch =>
      simp only [HttpConnect.exec] at hex
      repeat' split at hex
      all_goals cases hex
      all_goals refine ⟨h.quiet he rfl (by simp [Op.tokens]) rfl, fun o ho => ?_, trivial⟩
      all_goals rw [List.mem_singleton.mp ho]
      all_goals exact hop
  | removeEstablished =>
      simp only [HttpConnect.exec] at hex
      cases hex
      refine ⟨h.quiet he rfl (by simp [Op.tokens]) rfl, fun o ho => ?_, trivial⟩
      rw [List.mem_singleton.mp ho]
      exact Or.inr rfl
  | _ =>
      simp only [HttpConnect.exec] at hex
      repeat' split at hex
      all_goals cases hex
      all_goals refine ⟨h.quiet he rfl (by simp [Op.tokens]) rfl, fun o ho => ?_, trivial⟩
      all_goals first
        | cases ho; done
        | rw [List.mem_singleton.mp ho]; trivial

end Queued

/-- An arrival moves nothing, like the callback of `closeWithBackend`. -/
theorem arrive_effect {s s₁ : StreamState} {a : StreamAction} {start : Option (Tid × List Op)}
    (h : arrive s a = some (s₁, start)) :
    Effect .afterFunc s s₁ ∧ s₁.onceEntered = s.onceEntered := by
  cases a <;> simp only [arrive] at h <;> repeat' split at h
  all_goals cases h
  all_goals refine ⟨?_, rfl⟩
  all_goals first
    | exact effect_quiet (Or.inl rfl) rfl rfl id id id rfl
    | exact effect_quiet (Or.inr ⟨_, rfl, rfl⟩) rfl rfl id id id rfl
    | exact effect_quiet (Or.inr ⟨_, rfl, rfl⟩) rfl rfl (fun _ => rfl) id id rfl

theorem arrive_tokens {s s₁ : StreamState} {a : StreamAction} {start : Option (Tid × List Op)}
    (h : arrive s a = some (s₁, start)) : Pool.startTokens Op.tokens start = [] := by
  cases a <;> simp only [arrive] at h <;> repeat' split at h
  all_goals cases h
  all_goals rfl

theorem arrive_queued {s s₁ : StreamState} {a : StreamAction} {start : Option (Tid × List Op)}
    (h : arrive s a = some (s₁, start)) : System.StartOk (fun _ o => Op.Queued s₁ o) start := by
  cases a with
  | close k =>
      simp only [arrive] at h
      cases h
      intro o ho
      rw [List.mem_singleton.mp ho]
      exact fun hclean => absurd List.mem_cons_self hclean.1
  | send k pkt =>
      simp only [arrive] at h
      split at h <;> cases h
      next hconn =>
        intro o ho
        rw [List.mem_singleton.mp ho]
        exact hconn
  | ctxEnd =>
      simp only [arrive] at h
      split at h <;> cases h
      split
      · trivial
      · intro o ho
        rw [List.mem_singleton.mp ho]
        trivial
  | _ =>
      simp only [arrive] at h
      repeat' split at h
      all_goals cases h
      all_goals first
        | trivial
        | exact fun o ho => List.mem_singleton.mp ho ▸ trivial

/-- The operation a stream begins with. -/
theorem new_threads {n m : Nat} {P : Tid → Op → Prop} (h : P .dispatch .sendDialResponse) :
    Pool.All P (newHTTPConnectStream n m).threads := by
  intro t o ho
  dsimp only [newHTTPConnectStream] at ho
  split at ho
  · next ht =>
      rw [List.mem_singleton.mp ho, ht]
      exact h
  · cases ho

theorem queue_inv {queueSize xfrChannelSize : Nat} (hsize : 0 < queueSize)
    {okExec : StreamState → Tid → Choice → Op → Prop} {okArrive : StreamState → StreamAction → Prop}
    {s : System.State StreamState Tid Op}
    (h : Reach httpConnectStream.step (System.Allowed okExec okArrive)
      (newHTTPConnectStream queueSize xfrChannelSize) s) :
    QueueInv s.shared (Pool.Held Op.tokens s.threads) ∧
      Pool.All (fun _ o => Op.Queued s.shared o) s.threads := by
  refine System.invariant_owned Op.tokens (fun hr => (stream_inv hr).1) QueueInv
    (fun s _ o => o.Queued s) ?_ (new_threads ⟨rfl, rfl⟩) ?_ ?_ h
  · exact ⟨hsize, rfl, List.nil_prefix, (fun hin => nomatch hin), fun _ => ⟨rfl, rfl⟩,
      (fun hc => nomatch hc), fun _ => Or.inl rfl, (fun hc => nomatch hc)⟩
  · intro s t c o s₁ ops start hr ho hJ hP _ hex
    have hS := (stream_inv hr).2.1
    have hown : ∀ k ∈ o.tokens, Pool.Held Op.tokens s.threads k := fun k hk => ⟨t, o, ho, hk⟩
    obtain ⟨h1, h2, h3⟩ := hJ.exec hS hP hown hex
    refine ⟨h1, fun _ o' htok hq => ?_, h2, h3⟩
    have he : Effect o s.shared s₁ := exec_effect hex
    refine he.queued hP (fun hk => he.sends.resolve_right ?_) (fun k hk => (htok k hk).2) hq
    exact fun hsend => hsend.2 (hS.lock (htok _ hk).1)
  · intro s a s₁ start hr hJ _ harr
    have hS := (stream_inv hr).2.1
    obtain ⟨he, hent⟩ := arrive_effect harr
    have htok := arrive_tokens harr
    refine ⟨?_, fun _ o hq => ?_, ?_⟩
    · rw [htok]
      refine hJ.still he rfl (fun hl => hJ.idle fun hH => hl (Or.inr hH)) fun hc => Or.inl ?_
      rw [← hent]
      exact hc
    · exact he.queued trivial (fun _ => (he.still rfl).2.2.2.1) (fun k _ => by simp [Op.tokens]) hq
    · exact arrive_queued harr

end Konnectivity.Server.HttpConnect
