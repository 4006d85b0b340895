import Konnectivity.Proofs.HttpDrain

/-!
# Queued writes refine synchronous ones

What a queued stream writes is what a stream without a queue writes, up to
where it was cut off. A closed stream leaves no `Send` blocked, and the end of
the agent stream does not cut anything off.
-/

namespace Konnectivity.Server.HttpConnect

open Lib

/-! ## Events and their causes -/

/-- What is in the log before an event. -/
def Event.Caused : Event → List Event → Prop
  | .aborted, log => .eof ∉ log ∧ .ctxEnded ∈ log
  | .socketClosed, log => Fair log → (∀ t pkt, .passed t pkt ∈ log → t = .dispatch) →
      (collect Event.wroteBytes log).flatten =
        connectEstablished ++ syncBytes (collect Event.receivedPkt log)
  | _, _ => True

section Steps

variable {s s₁ : StreamState} {t : Tid} {c : Choice} {op : Op} {ops : List Op}
  {start : Option (Tid × List Op)}

theorem enqueue_log {pkt : FrontendPacket} {case : Case} (h : s.enqueue pkt case = some s₁) :
    s₁.receivedEOF = s.receivedEOF ∧ ∃ e, s₁.log = e :: s.log ∧ e ≠ .eof ∧ ∀ log, e.Caused log := by
  unfold StreamState.enqueue at h
  repeat' split at h
  all_goals cases h
  all_goals exact ⟨rfl, _, rfl, by simp, fun _ => trivial⟩

theorem exec_log (hex : exec s t c op = some (s₁, ops, start)) :
    (s₁.log = s.log ∧ s₁.receivedEOF = s.receivedEOF) ∨
    (∃ e, s₁.log = e :: s.log ∧ (s₁.receivedEOF = true ↔ s.receivedEOF = true ∨ e = .eof) ∧
      ((∀ log, e.Caused log) ∨ (e = .aborted ∧ op = .afterFunc ∧ s.receivedEOF = false) ∨
        ∃ caller, e = .socketClosed ∧ op = .connClose caller)) := by
  cases op with
  | connClose caller =>
      simp only [exec] at hex
      cases hex
      exact Or.inr ⟨_, rfl, by simp, Or.inr (Or.inr ⟨caller, rfl, rfl⟩)⟩
  | afterFunc =>
      simp only [exec] at hex
      split at hex <;> cases hex
      · exact Or.inl ⟨rfl, rfl⟩
      · next heof =>
          exact Or.inr ⟨_, rfl, by simp, Or.inr (Or.inl ⟨rfl, rfl, Bool.eq_false_iff.mpr heof⟩)⟩
  | tryEnqueue pkt k =>
      simp only [exec] at hex
      split at hex
      · split at hex <;> cases hex
        exact Or.inl ⟨rfl, rfl⟩
      · obtain ⟨s', henq, heq⟩ := Option.map_eq_some_iff.mp hex
        cases heq
        obtain ⟨h1, e, h2, h3, h4⟩ := enqueue_log henq
        exact Or.inr ⟨e, h2, by simp [h1, h3], Or.inl h4⟩
  | blockedEnqueue pkt k =>
      simp only [exec] at hex
      obtain ⟨s', henq, heq⟩ := Option.map_eq_some_iff.mp hex
      cases heq
      obtain ⟨h1, e, h2, h3, h4⟩ := enqueue_log henq
      exact Or.inr ⟨e, h2, by simp [h1, h3], Or.inl h4⟩
  | _ =>
      simp only [exec] at hex
      repeat' split at hex
      all_goals cases hex
      all_goals first
        | exact Or.inl ⟨rfl, rfl⟩
        | exact Or.inr ⟨_, rfl, by simp, Or.inl fun _ => trivial⟩

theorem arrive_log {a : StreamAction} (h : arrive s a = some (s₁, start)) :
    s₁.receivedEOF = s.receivedEOF ∧
      (s₁.log = s.log ∨ ∃ e, s₁.log = e :: s.log ∧ e ≠ .eof ∧ ∀ log, e.Caused log) ∧
      System.StartOk (fun _ o => o = .afterFunc → .ctxEnded ∈ s₁.log) start := by
  cases a <;> simp only [arrive] at h <;> repeat' split at h
  all_goals cases h
  all_goals refine ⟨rfl, ?_, ?_⟩
  all_goals first
    | exact Or.inl rfl
    | exact Or.inr ⟨_, rfl, by simp, fun _ => trivial⟩
    | trivial
    | intro o ho
      rw [List.mem_singleton.mp ho]
      simp

/-- Nobody but the watcher of the context runs its callback. -/
theorem exec_afterFunc (hex : exec s t c op = some (s₁, ops, start)) :
    .afterFunc ∉ ops ∧ ∀ t' ops', start = some (t', ops') → .afterFunc ∉ ops' := by
  cases op with
  | tryEnqueue pkt k =>
      simp only [exec] at hex
      split at hex
      · split at hex <;> cases hex
        simp
      · obtain ⟨s', henq, heq⟩ := Option.map_eq_some_iff.mp hex
        cases heq
        simp
  | blockedEnqueue pkt k =>
      simp only [exec] at hex
      obtain ⟨s', henq, heq⟩ := Option.map_eq_some_iff.mp hex
      cases heq
      simp
  | unlock k =>
      simp only [exec] at hex
      cases hex
      cases k <;> simp [AfterSend.returned]
  | close caller =>
      simp only [exec] at hex
      repeat' split at hex
      all_goals cases hex
      · cases caller <;> simp [CloseCaller.returned]
      · simp
  | onceDone caller =>
      simp only [exec] at hex
      cases hex
      cases caller <;> simp [CloseCaller.returned]
  | connWrite b caller =>
      simp only [exec] at hex
      repeat' split at hex
      all_goals cases hex
      all_goals cases caller <;> simp [WriteCaller.failed, WriteCaller.finished]
  | startWriter =>
      simp only [exec] at hex
      cases hex
      refine ⟨by simp, fun t' ops' heq => ?_⟩
      split at heq <;> cases heq
      simp
  | writerLoop =>
      simp only [exec] at hex
      cases hex
      refine ⟨?_, by simp⟩
      split <;> simp
  | _ =>
      simp only [exec] at hex
      repeat' split at hex
      all_goals cases hex
      all_goals simp

end Steps

theorem passed_eq_delivered {log : List Event} (h : ∀ t pkt, .passed t pkt ∈ log → t = .dispatch) :
    collect Event.passedPkt log = collect Event.deliveredPkt log := by
  induction log with
  | nil => rfl
  | cons e log ih =>
      rw [collect_cons, collect_cons, ih fun t pkt hin => h t pkt (List.mem_cons_of_mem _ hin)]
      cases e with
      | passed t pkt =>
          rw [h t pkt List.mem_cons_self]
          rfl
      | _ => rfl

section Runs

variable {queueSize xfrChannelSize : Nat} {okExec : StreamState → Tid → Choice → Op → Prop}
  {okArrive : StreamState → StreamAction → Prop} {s : System.State StreamState Tid Op}

theorem accepted_passed (hsize : 0 < queueSize)
    (h : Reach httpConnectStream.step (System.Allowed okExec okArrive)
      (newHTTPConnectStream queueSize xfrChannelSize) s) :
    accepted s.shared <+: passed s.shared := by
  obtain ⟨hQ, hq⟩ := queue_inv hsize h
  have hbal : Balanced s.shared → accepted s.shared <+: passed s.shared := by
    rintro (heq | ⟨-, hpre⟩)
    · exact heq.symm ▸ List.prefix_rfl
    · exact hpre
  have hpass : ∀ pkt, Passing s.shared pkt → accepted s.shared <+: passed s.shared := by
    rintro pkt (heq | ⟨-, hpre⟩)
    · rw [heq]
      exact List.prefix_append _ _
    · exact hpre
  have hnone : s.shared.connected = false → accepted s.shared <+: passed s.shared := by
    intro hconn
    rw [(hQ.unconnected hconn).2]
    exact List.nil_prefix
  have hcloser : ∀ caller : CloseCaller, .lock ∈ caller.tokens → caller.Queued s.shared →
      accepted s.shared <+: passed s.shared := by
    intro caller hk hc
    cases caller with
    | nobody => cases hk
    | writer => cases hk
    | send k => exact hc.elim
    | handshake => exact hnone hc.1
  by_cases hH : Pool.Held Op.tokens s.threads .lock
  · obtain ⟨t, o, ho, hk⟩ := hH
    have hqo := hq t o ho
    cases o with
    | startWriter => exact hnone hqo.1
    | closeConnected => exact hnone hqo.1
    | connWrite b caller =>
        rcases caller with _ | k | _
        · exact hnone hqo.1
        · exact hqo.elim
        · simp [Op.tokens, WriteCaller.tokens] at hk
    | streamSend pkt k => exact hpass pkt hqo.2
    | enqueueWrite pkt k => exact hpass pkt hqo.2
    | tryEnqueue pkt k => exact hpass pkt (Or.inl hqo.2)
    | blockedEnqueue pkt k => exact hpass pkt (Or.inl hqo.2)
    | unlock k => exact hbal hqo.1
    | close caller => exact hcloser caller hk hqo
    | closeClosed caller => exact hcloser caller ((List.mem_cons.mp hk).resolve_left (by simp)) hqo
    | connClose caller => exact hcloser caller ((List.mem_cons.mp hk).resolve_left (by simp)) hqo
    | cancel caller => exact hcloser caller ((List.mem_cons.mp hk).resolve_left (by simp)) hqo
    | onceDone caller => exact hcloser caller ((List.mem_cons.mp hk).resolve_left (by simp)) hqo
    | send pkt k => cases k <;> simp [Op.tokens, AfterSend.tokens] at hk
    | _ => simp [Op.tokens] at hk
  · exact hbal (hQ.idle hH)

/-- What is in the socket once the writer has dequeued a `CLOSE_RSP`. -/
theorem queue_ordered (hsize : 0 < queueSize)
    (h : Reach httpConnectStream.step (System.Allowed okExec okArrive)
      (newHTTPConnectStream queueSize xfrChannelSize) s) (hin : .closeRsp ∈ dequeued s.shared) :
    written s.shared = connectEstablished ++ syncBytes (accepted s.shared) ∧
      syncBytes (accepted s.shared) = syncBytes (passed s.shared) ∧
      .closeRsp ∈ passed s.shared := by
  obtain ⟨hQ, -⟩ := queue_inv hsize h
  obtain ⟨r, hr⟩ := accepted_passed hsize h
  have hacc : .closeRsp ∈ accepted s.shared := by
    rw [hQ.fifo]
    exact List.mem_append_left _ hin
  refine ⟨?_, ?_, ?_⟩
  · rw [hQ.ordered hin, hQ.fifo, syncBytes_closed hin]
  · rw [← hr, syncBytes_closed hacc]
  · rw [← hr]
    exact List.mem_append_left _ hacc

/-- What is in the socket once `close` runs. -/
theorem drained (hsize : 0 < queueSize)
    (h : Reach httpConnectStream.step (System.Allowed okExec okArrive)
      (newHTTPConnectStream queueSize xfrChannelSize) s) (hent : s.shared.onceEntered = true)
    (hfair : Fair s.shared.log) (hpassed : ∀ t pkt, .passed t pkt ∈ s.shared.log → t = .dispatch) :
    written s.shared = connectEstablished ++ syncBytes (received s.shared) := by
  have hin := (queue_inv hsize h).1.closes hent hfair.1
  obtain ⟨h1, h2, h3⟩ := queue_ordered hsize h hin
  have hsame : passed s.shared = delivered s.shared := passed_eq_delivered hpassed
  rw [hsame] at h2 h3
  obtain ⟨hand, hopen | ⟨-, -, hsync, -⟩⟩ := dispatcher_even hsize h hfair
  · exact absurd h3 hopen.2.2
  · rw [h1, h2, ← hsync, syncBytes_closed h3]

theorem log_caused (hsize : 0 < queueSize)
    (h : Reach httpConnectStream.step (System.Allowed okExec okArrive)
      (newHTTPConnectStream queueSize xfrChannelSize) s) :
    Pool.Each Event.Caused s.shared.log := by
  refine And.left (And.left (System.invariant (fun s => Pool.Each Event.Caused s.log ∧
    (s.receivedEOF = true ↔ .eof ∈ s.log)) (fun s _ o => o = .afterFunc → .ctxEnded ∈ s.log)
    ?_ ?_ ?_ ?_ h))
  · exact ⟨trivial, by simp [newHTTPConnectStream]⟩
  · exact new_threads (fun h => by cases h)
  · rintro s a s₁ start _ ⟨heach, heof⟩ _ harr
    obtain ⟨h1, hlog, hstart⟩ := arrive_log harr
    refine ⟨⟨?_, ?_⟩, fun _ o ho hop => (arrive_effect harr).1.log (ho hop), hstart⟩
    · rcases hlog with hlog | ⟨e, hlog, -, hcaused⟩
      · rw [hlog]
        exact heach
      · rw [hlog]
        exact ⟨hcaused _, heach⟩
    · rw [h1, heof]
      rcases hlog with hlog | ⟨e, hlog, hne, -⟩
      · rw [hlog]
      · rw [hlog, List.mem_cons, or_iff_right (Ne.symm hne)]
  · rintro s t c o rest s₁ ops start hr ⟨heach, heof⟩ ht hP _ hex
    obtain ⟨hops, hstart⟩ := exec_afterFunc hex
    refine ⟨?_, fun _ o' ho hop => (exec_effect hex).log (ho hop), fun o' ho' hop => ?_, ?_⟩
    · rcases exec_log hex with ⟨hlog, hsame⟩ | ⟨e, hlog, hiff, hcause⟩
      · rw [hlog, hsame]
        exact ⟨heach, heof⟩
      · rw [hlog]
        refine ⟨⟨?_, heach⟩, ?_⟩
        · rcases hcause with hcause | ⟨rfl, rfl, hnot⟩ | ⟨caller, rfl, rfl⟩
          · exact hcause _
          · refine ⟨fun hin => ?_, hP rfl⟩
            rw [heof.mpr hin] at hnot
            cases hnot
          · have ho : Op.connClose caller ∈ s.threads t := by
              rw [ht]
              exact List.mem_cons_self
            have hent := (stream_inv hr).2.1.once ⟨t, _, ho, List.mem_cons_self⟩
            exact drained hsize hr hent.1
        · rw [hiff, heof, List.mem_cons, or_comm, eq_comm]
    · rw [hop] at ho'
      exact absurd ho' hops
    · cases start with
      | none => trivial
      | some st =>
          intro o' ho' hop
          rw [hop] at ho'
          exact absurd ho' (hstart _ _ rfl)

end Runs

/-! ## No `Send` is left blocked -/

/-- The operations of the writer. -/
def Op.ofWriter : Op → Bool
  | .connWrite _ .queued | .writerLoop | .writerSelect | .closeWriterDone => true
  | .close caller | .closeClosed caller | .connClose caller | .cancel caller | .onceDone caller =>
      caller = .writer
  | _ => false

/-- The operations of `readBackendToChannel`. -/
def Op.reads : Op → Bool
  | .recvChSend _ | .storeEOF | .closeRecvCh => true
  | _ => false

/-- Where `readBackendToChannel` is, and what it knows of `recvCh`. -/
def ReaderAt (s : StreamState) : List Op → Prop
  | [] => s.recvCh.closed = true → s.recvEnded = true
  | [.recvChSend _] => s.recvCh.closed = false
  | [.storeEOF] | [.closeRecvCh] => s.recvCh.closed = false ∧ s.recvEnded = true
  | _ => False

structure Shaped (s : System.State StreamState Tid Op) : Prop where
  panic : s.shared.panic = none
  single : ∀ t, t ≠ .writer → (s.threads t).length ≤ 1
  writer : ∀ o ∈ s.threads .writer, o.ofWriter = true
  reads : ∀ t, ∀ o ∈ s.threads t, o.reads = true → t = .reader
  reader : ReaderAt s.shared (s.threads .reader)
  locked : ∀ t, s.shared.sendLock = some t → ∃ o ∈ s.threads t, .lock ∈ o.tokens

section Shapes

variable {s s₁ : StreamState} {t : Tid} {c : Choice} {op : Op} {ops : List Op}
  {start : Option (Tid × List Op)}

theorem enqueue_shape {pkt : FrontendPacket} {case : Case} (h : s.enqueue pkt case = some s₁) :
    s₁.sendLock = s.sendLock ∧ s₁.panic = s.panic ∧ s₁.recvCh.closed = s.recvCh.closed ∧
      s₁.recvEnded = s.recvEnded := by
  unfold StreamState.enqueue at h
  repeat' split at h
  all_goals cases h
  all_goals exact ⟨rfl, rfl, rfl, rfl⟩

/-- What an operation does to the shape of the goroutines. -/
structure ShapeStep (s s₁ : StreamState) (t : Tid) (op : Op) (ops : List Op)
    (start : Option (Tid × List Op)) : Prop where
  length : ops.length ≤ 1
  lock : s₁.sendLock = none ∨ (s₁.sendLock = some t ∧ ∃ o ∈ ops, .lock ∈ o.tokens) ∨
    (s₁.sendLock = s.sendLock ∧ (.lock ∈ op.tokens → ∃ o ∈ ops, .lock ∈ o.tokens))
  writer : op.ofWriter = true → ∀ o ∈ ops, o.ofWriter = true
  reads : op.reads = false → (∀ o ∈ ops, o.reads = false) ∧ s₁.panic = s.panic ∧
    s₁.recvCh.closed = s.recvCh.closed ∧ s₁.recvEnded = s.recvEnded
  started : start = none ∨ start = some (.writer, [.writerLoop])

theorem exec_shape (hex : exec s t c op = some (s₁, ops, start)) :
    ShapeStep s s₁ t op ops start := by
  cases op with
  | tryEnqueue pkt k =>
      simp only [exec] at hex
      split at hex
      · split at hex <;> cases hex
        exact ⟨by simp, Or.inr (Or.inr ⟨rfl, fun hk => ⟨_, List.mem_cons_self, hk⟩⟩),
          (fun h => by cases h), fun _ => ⟨by simp [Op.reads], rfl, rfl, rfl⟩, Or.inl rfl⟩
      · obtain ⟨s', henq, heq⟩ := Option.map_eq_some_iff.mp hex
        cases heq
        obtain ⟨h1, h2⟩ := enqueue_shape henq
        exact ⟨by simp, Or.inr (Or.inr ⟨h1, fun hk => ⟨_, List.mem_cons_self, hk⟩⟩),
          (fun h => by cases h), fun _ => ⟨by simp [Op.reads], h2⟩, Or.inl rfl⟩
  | blockedEnqueue pkt k =>
      simp only [exec] at hex
      obtain ⟨s', henq, heq⟩ := Option.map_eq_some_iff.mp hex
      cases heq
      obtain ⟨h1, h2⟩ := enqueue_shape henq
      exact ⟨by simp, Or.inr (Or.inr ⟨h1, fun hk => ⟨_, List.mem_cons_self, hk⟩⟩),
        (fun h => by cases h), fun _ => ⟨by simp [Op.reads], h2⟩, Or.inl rfl⟩
  | unlock k =>
      simp only [exec] at hex
      cases hex
      refine ⟨?_, Or.inl rfl, (fun h => by cases h), fun _ => ⟨?_, rfl, rfl, rfl⟩, Or.inl rfl⟩
      · cases k <;> simp [AfterSend.returned]
      · cases k <;> simp [AfterSend.returned, Op.reads]
  | close caller =>
      simp only [exec] at hex
      repeat' split at hex
      all_goals cases hex
      · refine ⟨?_, Or.inr (Or.inr ⟨rfl, ?_⟩), ?_, fun _ => ⟨?_, rfl, rfl, rfl⟩, Or.inl rfl⟩
        all_goals cases caller
        all_goals simp [CloseCaller.returned, Op.tokens, CloseCaller.tokens, Op.ofWriter, Op.reads]
      · refine ⟨by simp, Or.inr (Or.inr ⟨rfl, ?_⟩), ?_,
          fun _ => ⟨by simp [Op.reads], rfl, rfl, rfl⟩, Or.inl rfl⟩
        · simp [Op.tokens]
        · cases caller <;> simp [Op.ofWriter]
  | onceDone caller =>
      simp only [exec] at hex
      cases hex
      refine ⟨?_, Or.inr (Or.inr ⟨rfl, ?_⟩), ?_, fun _ => ⟨?_, rfl, rfl, rfl⟩, Or.inl rfl⟩
      all_goals cases caller
      all_goals simp [CloseCaller.returned, Op.tokens, CloseCaller.tokens, Op.ofWriter, Op.reads]
  | connWrite b caller =>
      simp only [exec] at hex
      repeat' split at hex
      all_goals cases hex
      all_goals refine ⟨?_, Or.inr (Or.inr ⟨rfl, ?_⟩), ?_, fun _ => ⟨?_, rfl, rfl, rfl⟩, Or.inl rfl⟩
      all_goals cases caller
      all_goals simp [WriteCaller.failed, WriteCaller.finished, Op.tokens, WriteCaller.tokens,
                  CloseCaller.tokens, Op.ofWriter, Op.reads]
  | startWriter =>
      simp only [exec] at hex
      cases hex
      refine ⟨by simp, Or.inr (Or.inr ⟨rfl, by simp [Op.tokens]⟩), (fun h => by cases h),
        fun _ => ⟨by simp [Op.reads], rfl, rfl, rfl⟩, ?_⟩
      split
      · exact Or.inr rfl
      · exact Or.inl rfl
  | writerLoop =>
      simp only [exec] at hex
      cases hex
      refine ⟨?_, Or.inr (Or.inr ⟨rfl, by simp [Op.tokens]⟩), fun _ => ?_,
        fun _ => ⟨?_, rfl, rfl, rfl⟩, Or.inl rfl⟩
      all_goals split
      all_goals simp [Op.ofWriter, Op.reads]
  | dispatch =>
      simp only [exec] at hex
      split at hex
      · cases hex
      · cases hex
        exact ⟨by simp, Or.inr (Or.inr ⟨rfl, by simp [Op.tokens]⟩), (fun h => by cases h),
          fun _ => ⟨by simp [Op.reads], rfl, rfl, rfl⟩, Or.inl rfl⟩
      · next hrecv =>
          cases hex
          exact ⟨by simp, Or.inr (Or.inr ⟨rfl, by simp [Op.tokens]⟩), (fun h => by cases h),
            fun _ => ⟨by simp [Op.reads], rfl, GoChan.recv_closed hrecv, rfl⟩, Or.inl rfl⟩
  | _ =>
      simp only [exec] at hex
      repeat' split at hex
      all_goals cases hex
      all_goals refine ⟨by simp, ?_, ?_, ?_, Or.inl rfl⟩
      all_goals simp [Op.tokens, Op.ofWriter, Op.reads, CloseCaller.tokens, WriteCaller.tokens]

end Shapes

/-- A step of `readBackendToChannel`. -/
theorem ReaderAt.exec {s s₁ : StreamState} {t : Tid} {c : Choice} {op : Op} {rest ops : List Op}
    {start : Option (Tid × List Op)} (h : ReaderAt s (op :: rest)) (hpanic : s.panic = none)
    (hread : op.reads = true) (hex : exec s t c op = some (s₁, ops, start)) :
    s₁.panic = none ∧ ReaderAt s₁ (ops ++ rest) ∧ ∀ o ∈ ops, o.reads = true := by
  cases op with
  | recvChSend pkt =>
      cases rest with
      | cons o rest => exact h.elim
      | nil =>
          have hopen : s.recvCh.closed = false := h
          simp only [HttpConnect.exec] at hex
          split at hex
          · cases hex
          · next hch =>
              unfold GoChan.send at hch
              rw [hopen] at hch
              simp at hch
          · next ch hch =>
              cases hex
              have hclosed := GoChan.send_closed hch
              refine ⟨hpanic, fun hc => ?_, (fun o ho => by cases ho)⟩
              change ch.closed = true at hc
              rw [hclosed, hopen] at hc
              cases hc
  | storeEOF =>
      cases rest with
      | cons o rest => exact h.elim
      | nil =>
          simp only [HttpConnect.exec] at hex
          cases hex
          exact ⟨hpanic, h, by simp [Op.reads]⟩
  | closeRecvCh =>
      cases rest with
      | cons o rest => exact h.elim
      | nil =>
          obtain ⟨hopen, hended⟩ : s.recvCh.closed = false ∧ s.recvEnded = true := h
          simp only [HttpConnect.exec, GoChan.close, hopen] at hex
          cases hex
          exact ⟨hpanic, fun _ => hended, (fun o ho => by cases ho)⟩
  | _ => cases hread

theorem ReaderAt.reads {s : StreamState} {op : Op} {rest : List Op} (h : ReaderAt s (op :: rest)) :
    op.reads = true := by
  cases op with
  | recvChSend pkt => rfl
  | storeEOF => rfl
  | closeRecvCh => rfl
  | _ => exact h.elim

theorem ReaderAt.same {s s₁ : StreamState} {ops : List Op} (h : ReaderAt s ops)
    (hclosed : s₁.recvCh.closed = s.recvCh.closed)
    (hended : s.recvEnded = true → s₁.recvEnded = true) : ReaderAt s₁ ops := by
  unfold ReaderAt at h
  split at h
  · exact fun hc => hended (h (hclosed ▸ hc))
  · exact hclosed.trans h
  · exact ⟨hclosed.trans h.1, hended h.2⟩
  · exact ⟨hclosed.trans h.1, hended h.2⟩
  · exact h.elim

theorem spawn_writer {threads : Tid → List Op} {start : Option (Tid × List Op)} {t : Tid}
    (h : start = none ∨ start = some (.writer, [.writerLoop])) (ht : t ≠ .writer) :
    Pool.spawn threads start t = threads t := by
  refine Pool.spawn_of_ne fun ops hst => ?_
  rcases h with h | h
  · rw [h] at hst
    cases hst
  · rw [h] at hst
    cases hst
    exact ht rfl

section Runs

variable {queueSize xfrChannelSize : Nat} {okExec : StreamState → Tid → Choice → Op → Prop}
  {okArrive : StreamState → StreamAction → Prop} {s : System.State StreamState Tid Op}

theorem Shaped.exec {t : Tid} {c : Choice} {o : Op} {rest : List Op} {s₁ : StreamState}
    {ops : List Op} {start : Option (Tid × List Op)} (h : Shaped s) (ht : s.threads t = o :: rest)
    (hex : exec s.shared t c o = some (s₁, ops, start)) :
    Shaped ⟨s₁, Pool.spawn (Function.update s.threads t (ops ++ rest)) start⟩ := by
  obtain ⟨hlen, hlock, hwriter, hreads, hstart⟩ := exec_shape hex
  have ho : o ∈ s.threads t := by
    rw [ht]
    exact List.mem_cons_self
  have hread : o.reads = true → t = .reader := h.reads t o ho
  have hmem : ∀ x o', o' ∈ Pool.spawn (Function.update s.threads t (ops ++ rest)) start x →
      o' ∈ s.threads x ∨ (x = t ∧ o' ∈ ops) ∨ (x = .writer ∧ o' = .writerLoop) := by
    intro x o' ho'
    rcases Pool.mem_of_spawn ho' with ho' | ⟨ops', hst, ho'⟩
    · rcases Pool.mem_of_push ht ho' with ho' | ho'
      · exact Or.inr (Or.inl ho')
      · exact Or.inl ho'
    · rcases hstart with hnone | hsome
      · rw [hnone] at hst
        cases hst
      · rw [hsome] at hst
        cases hst
        exact Or.inr (Or.inr ⟨rfl, List.mem_singleton.mp ho'⟩)
  refine ⟨?_, fun x hx => ?_, fun o' ho' => ?_, fun x o' ho' hr => ?_, ?_, fun x hx => ?_⟩
  · cases hr : o.reads with
    | false => exact (hreads hr).2.1.trans h.panic
    | true =>
        have hat := h.reader
        rw [← hread hr, ht] at hat
        exact (hat.exec h.panic hr hex).1
  · dsimp only
    rw [spawn_writer hstart hx]
    by_cases hxt : x = t
    · subst hxt
      have hone := h.single x hx
      rw [ht, List.length_cons] at hone
      rw [Function.update_self, List.length_append]
      omega
    · rw [Function.update_of_ne hxt]
      exact h.single x hx
  · rcases hmem _ _ ho' with hold | ⟨rfl, hnew⟩ | ⟨-, rfl⟩
    · exact h.writer o' hold
    · exact hwriter (h.writer o ho) o' hnew
    · rfl
  · rcases hmem _ _ ho' with hold | ⟨rfl, hnew⟩ | ⟨-, rfl⟩
    · exact h.reads x o' hold hr
    · refine hread ?_
      cases hro : o.reads with
      | true => rfl
      | false =>
          rw [(hreads hro).1 o' hnew] at hr
          cases hr
    · cases hr
  · dsimp only
    rw [spawn_writer hstart (by simp)]
    cases hr : o.reads with
    | false =>
        obtain ⟨-, -, hclosed, hended⟩ := hreads hr
        have hne : Tid.reader ≠ t := by
          intro heq
          have hat := h.reader
          rw [heq, ht] at hat
          rw [hat.reads] at hr
          cases hr
        rw [Function.update_of_ne hne]
        exact h.reader.same hclosed fun he => hended.trans he
    | true =>
        have hat := h.reader
        rw [← hread hr, ht] at hat
        rw [← hread hr, Function.update_self]
        exact (hat.exec h.panic hr hex).2.1
  · dsimp only at hx
    have hkeep : s.shared.sendLock = some x → (.lock ∈ o.tokens → ∃ o' ∈ ops, .lock ∈ o'.tokens) →
        ∃ o' ∈ Pool.spawn (Function.update s.threads t (ops ++ rest)) start x,
        .lock ∈ o'.tokens := by
      intro hx hnew
      obtain ⟨o', ho', hk⟩ := h.locked x hx
      rcases Pool.mem_push ho' ht with ⟨rfl, rfl⟩ | ho'
      · obtain ⟨o₁, ho₁, hk₁⟩ := hnew hk
        refine ⟨o₁, Pool.mem_spawn ?_, hk₁⟩
        rw [Function.update_self]
        exact List.mem_append_left _ ho₁
      · exact ⟨o', Pool.mem_spawn ho', hk⟩
    rcases hlock with hnone | ⟨hself, o₁, ho₁, hk₁⟩ | ⟨hsame, hnew⟩
    · rw [hnone] at hx
      cases hx
    · rw [hself] at hx
      cases hx
      refine ⟨o₁, Pool.mem_spawn ?_, hk₁⟩
      rw [Function.update_self]
      exact List.mem_append_left _ ho₁
    · exact hkeep (hsame ▸ hx) hnew

theorem arrive_shape {s s₁ : StreamState} {a : StreamAction} {start : Option (Tid × List Op)}
    (h : arrive s a = some (s₁, start)) :
    s₁.panic = s.panic ∧ s₁.sendLock = s.sendLock ∧ s₁.recvCh = s.recvCh ∧
      (s.recvEnded = true → s₁.recvEnded = true) ∧
      ∀ t ops, start = some (t, ops) → t ≠ .writer ∧ ops.length ≤ 1 ∧
        (∀ o ∈ ops, o.reads = true → t = .reader) ∧
        (t = .reader → s.recvEnded = false ∧ (s.recvCh.closed = false → ReaderAt s₁ ops)) := by
  cases a <;> simp only [arrive] at h <;> repeat' split at h
  all_goals cases h
  all_goals refine ⟨rfl, rfl, rfl, ?_, ?_⟩
  all_goals simp_all [Op.reads, ReaderAt]

theorem Shaped.arrive {a : StreamAction} {s₁ : StreamState} {start : Option (Tid × List Op)}
    {threads : Tid → List Op} (h : Shaped s)
    (harr : HttpConnect.arrive s.shared a = some (s₁, start))
    (hthreads : Pool.Arrived s.threads start threads) : Shaped ⟨s₁, threads⟩ := by
  obtain ⟨hpanic, hlock, hch, hended, hstart⟩ := arrive_shape harr
  refine ⟨hpanic.trans h.panic, fun x hx => ?_, fun o' ho' => ?_, fun x o' ho' hr => ?_, ?_,
    fun x hx => ?_⟩
  · cases start with
    | none =>
        obtain rfl : threads = s.threads := hthreads
        exact h.single x hx
    | some st =>
        obtain ⟨-, hlen, -, -⟩ := hstart _ _ rfl
        dsimp only
        by_cases hxt : x = st.1
        · subst hxt
          rw [hthreads.started]
          exact hlen
        · rw [hthreads.2, Function.update_of_ne hxt]
          exact h.single x hx
  · rcases hthreads.of_mem ho' with hold | ⟨ops, hst, hnew⟩
    · exact h.writer o' hold
    · exact absurd rfl (hstart _ _ hst).1
  · rcases hthreads.of_mem ho' with hold | ⟨ops, hst, hnew⟩
    · exact h.reads x o' hold hr
    · exact (hstart _ _ hst).2.2.1 o' hnew hr
  · have hclosed : s₁.recvCh.closed = s.shared.recvCh.closed := by rw [hch]
    cases start with
    | none =>
        obtain rfl : threads = s.threads := hthreads
        exact h.reader.same hclosed hended
    | some st =>
        dsimp only
        by_cases hxt : .reader = st.1
        · obtain ⟨-, -, -, hreader⟩ := hstart _ _ rfl
          obtain ⟨hnot, hat⟩ := hreader hxt.symm
          have hidle := h.reader
          rw [hxt, hthreads.1] at hidle
          rw [hxt, hthreads.started]
          refine hat (Bool.eq_false_iff.mpr fun hc => ?_)
          rw [hidle hc] at hnot
          cases hnot
        · rw [hthreads.2, Function.update_of_ne hxt]
          exact h.reader.same hclosed hended
  · obtain ⟨o', ho', hk⟩ := h.locked x (hlock ▸ hx)
    exact ⟨o', hthreads.mem ho', hk⟩

theorem shaped (h : Reach httpConnectStream.step (System.Allowed okExec okArrive)
      (newHTTPConnectStream queueSize xfrChannelSize) s) : Shaped s := by
  refine System.invariant_state Shaped ?_ ?_ ?_ h
  · have hnew : ∀ t o, o ∈ (newHTTPConnectStream queueSize xfrChannelSize).threads t →
        t = .dispatch ∧ o = .sendDialResponse := by
      intro t o ho
      dsimp only [newHTTPConnectStream] at ho
      split at ho
      · next ht => exact ⟨ht, List.mem_singleton.mp ho⟩
      · cases ho
    refine ⟨rfl, fun t _ => ?_, fun o ho => ?_, fun t o ho hr => ?_, (fun h => nomatch h),
      (fun t h => nomatch h)⟩
    · dsimp only [newHTTPConnectStream]
      split <;> simp
    · cases (hnew _ o ho).1
    · rw [(hnew t o ho).2] at hr
      cases hr
  · intro s t c o rest s₁ ops start _ hs _ ht _ hex
    exact hs.exec ht hex
  · intro s a s₁ start threads _ hs _ _ harr hthreads
    exact hs.arrive harr hthreads

/-! ## The properties of a queued stream -/

/-- The operations of a call of `Send`. -/
def Op.sending : Op → Bool
  | .send _ _ | .streamSend _ _ | .enqueueWrite _ _ | .tryEnqueue _ _ | .blockedEnqueue _ _
  | .unlock _ => true
  | _ => false

/-- How many operations a `Send` of a closed stream has left at most. -/
def Op.left : Op → Nat
  | .send _ _ => 5
  | .streamSend _ _ => 4
  | .enqueueWrite _ _ => 3
  | .tryEnqueue _ _ | .blockedEnqueue _ _ => 2
  | .unlock _ => 1
  | _ => 0

theorem canStep_of_shaped {t : Tid} {o : Op} {c : Choice} (h : Shaped s) (ht : s.threads t = [o])
    (hex : (exec s.shared t c o).isSome = true) : httpConnectStream.CanStep s t c := by
  refine System.canStep_of_exec ?_ ht hex
  change s.shared.panic.isSome = false
  rw [h.panic]
  rfl

theorem Shaped.alone {t : Tid} {o : Op} (h : Shaped s) (ho : o ∈ s.threads t)
    (hw : o.ofWriter = false) : s.threads t = [o] := by
  have hne : t ≠ .writer := by
    rintro rfl
    rw [h.writer o ho] at hw
    cases hw
  have hlen := h.single t hne
  match hth : s.threads t with
  | [] =>
      rw [hth] at ho
      cases ho
  | [o'] =>
      rw [hth] at ho
      rw [List.mem_singleton.mp ho]
  | o₁ :: o₂ :: rest =>
      rw [hth] at hlen
      simp at hlen

theorem exec_left {s s₁ : StreamState} {t : Tid} {c : Choice} {op : Op} {ops : List Op}
    {start : Option (Tid × List Op)} (hop : op.sending = true) (hclosed : s.closed = true)
    (hex : exec s t c op = some (s₁, ops, start)) : start = none ∧ ∀ o ∈ ops, o.left < op.left := by
  cases op with
  | tryEnqueue pkt k =>
      simp only [exec] at hex
      split at hex
      · rw [if_pos (Or.inr hclosed)] at hex
        cases hex
      · obtain ⟨s', -, heq⟩ := Option.map_eq_some_iff.mp hex
        cases heq
        simp [Op.left]
  | blockedEnqueue pkt k =>
      simp only [exec] at hex
      obtain ⟨s', -, heq⟩ := Option.map_eq_some_iff.mp hex
      cases heq
      simp [Op.left]
  | unlock k =>
      simp only [exec] at hex
      cases hex
      cases k <;> simp [AfterSend.returned, Op.left]
  | send pkt k =>
      simp only [exec] at hex
      split at hex <;> cases hex
      simp [Op.left]
  | streamSend pkt k =>
      simp only [exec] at hex
      repeat' split at hex
      all_goals cases hex
      all_goals simp [Op.left]
  | enqueueWrite pkt k =>
      simp only [exec] at hex
      split at hex <;> cases hex
      all_goals simp [Op.left]
  | _ => cases hop

/-- A `Send` that has the lock of a closed stream goes on. -/
theorem send_canStep {t : Tid} {o : Op} (h : Shaped s) (hclosed : s.shared.closed = true)
    (ho : o ∈ s.threads t) (hs : o.sending = true) (hsend : ∀ pkt k, o ≠ .send pkt k) :
    ∃ c, httpConnectStream.CanStep s t c := by
  have hone : s.threads t = [o] := h.alone ho (by cases o <;> first | rfl | cases hs)
  refine ⟨⟨.closed, none⟩, canStep_of_shaped h hone ?_⟩
  cases o with
  | send pkt k => exact absurd rfl (hsend pkt k)
  | streamSend pkt k =>
      cases pkt <;> simp only [exec] <;> split <;> rfl
  | enqueueWrite pkt k =>
      simp only [exec]
      split <;> rfl
  | tryEnqueue pkt k => simp [exec, StreamState.enqueue, hclosed]
  | blockedEnqueue pkt k => simp [exec, StreamState.enqueue, hclosed]
  | unlock k => rfl
  | _ => cases hs

/-- Whoever has the lock of a connected stream is in a `Send`. -/
theorem locked_sending {s : StreamState} {o : Op} (hconn : s.connected = true)
    (hk : .lock ∈ o.tokens) (hq : o.Queued s) :
    o.sending = true ∧ ∀ pkt k, o ≠ .send pkt k := by
  have hearly : s.connected = false → o.sending = true ∧ ∀ pkt k, o ≠ .send pkt k := by
    intro hc
    rw [hconn] at hc
    cases hc
  have hcloser : ∀ caller : CloseCaller, .lock ∈ caller.tokens → caller.Queued s →
      o.sending = true ∧ ∀ pkt k, o ≠ .send pkt k := by
    intro caller hk hc
    cases caller with
    | nobody => cases hk
    | writer => cases hk
    | send k => exact hc.elim
    | handshake => exact hearly hc.1
  cases o with
  | startWriter => exact hearly hq.1
  | closeConnected => exact hearly hq.1
  | connWrite b caller =>
      rcases caller with _ | k | _
      · exact hearly hq.1
      · exact hq.elim
      · simp [Op.tokens, WriteCaller.tokens] at hk
  | send pkt k => cases k <;> simp [Op.tokens, AfterSend.tokens] at hk
  | close caller => exact hcloser caller hk hq
  | closeClosed caller => exact hcloser caller ((List.mem_cons.mp hk).resolve_left (by simp)) hq
  | connClose caller => exact hcloser caller ((List.mem_cons.mp hk).resolve_left (by simp)) hq
  | cancel caller => exact hcloser caller ((List.mem_cons.mp hk).resolve_left (by simp)) hq
  | onceDone caller => exact hcloser caller ((List.mem_cons.mp hk).resolve_left (by simp)) hq
  | _ => first | exact ⟨rfl, by simp⟩ | simp [Op.tokens] at hk

/-- What is known of a stream with a queue, whatever the schedule. -/
structure QueuedWrites (s : System.State StreamState Tid Op) : Prop where
  /-- The 200 response, and payloads that `Send` accepted. -/
  wrote : s.shared.connected = true →
    ∃ b, written s.shared = connectEstablished ++ b ∧ b <+: syncBytes (accepted s.shared)
  /-- The writer has stopped at a `CLOSE_RSP`. -/
  ordered : .closeRsp ∈ dequeued s.shared →
    written s.shared = connectEstablished ++ syncBytes (accepted s.shared)
  /-- It wrote what a stream without a queue writes for the same packets. -/
  refines : .closeRsp ∈ dequeued s.shared → ∀ (xfrChannelSize : Nat)
    (s' : System.State StreamState Tid Op), Reach httpConnectStream.step System.unrestricted
      (newHTTPConnectStream 0 xfrChannelSize) s' →
    s'.shared.connected = true → Clean s'.shared.log → s'.shared.sendLock = none →
    passed s'.shared = passed s.shared → written s'.shared = written s.shared
  /-- After `closed` is closed every `Send` can go on, or waits for one that can. -/
  unblocked : s.shared.closed = true → ∀ t, ∀ o ∈ s.threads t, o.sending = true →
    (∃ c, httpConnectStream.CanStep s t c) ∨ ∃ t', s.shared.sendLock = some t' ∧
      (∃ o' ∈ s.threads t', o'.sending = true) ∧ ∃ c, httpConnectStream.CanStep s t' c
  /-- And it comes nearer to its end. -/
  nearer : s.shared.closed = true → ∀ t, ∀ o ∈ s.threads t, o.sending = true →
    ∀ c s', httpConnectStream.step s (.run t c) = some s' → ∀ o' ∈ s'.threads t, o'.left < o.left
  closedOnce : s.shared.log.count .socketClosed ≤ 1
  /-- `receivedEOF` is set before the context ends. -/
  noAbort : (∀ later earlier, s.shared.log = later ++ Event.ctxEnded :: earlier → .eof ∈ earlier) →
    .aborted ∉ s.shared.log
  /-- All that was received is in the socket when it is closed, unless `Close`
  was called, the client had gone, a write failed or somebody else sent. -/
  drained : (∀ later earlier, s.shared.log = later ++ Event.ctxEnded :: earlier → .eof ∈ earlier) →
    ∀ later earlier, s.shared.log = later ++ Event.socketClosed :: earlier →
    .closeCalled ∉ earlier → .frontendGone ∉ earlier → .writeFailed false ∉ earlier →
    (∀ t pkt, .passed t pkt ∈ earlier → t = .dispatch) →
    (collect Event.wroteBytes earlier).flatten =
      connectEstablished ++ syncBytes (collect Event.receivedPkt earlier)

theorem count_single {log : List Event}
    (h : Pool.Each (fun e log => e = .socketClosed → .socketClosed ∉ log) log) :
    log.count .socketClosed ≤ 1 := by
  induction log with
  | nil => simp
  | cons e log ih =>
      by_cases he : e = .socketClosed
      · have hzero := List.count_eq_zero_of_not_mem (h.1 he)
        rw [he, List.count_cons_self]
        omega
      · rw [List.count_cons_of_ne he]
        exact ih h.2

theorem not_aborted {log : List Event} (hcaused : Pool.Each Event.Caused log)
    (h : ∀ later earlier, log = later ++ Event.ctxEnded :: earlier → .eof ∈ earlier) :
    .aborted ∉ log := by
  intro hin
  obtain ⟨later, earlier, rfl, hnot, hctx⟩ := hcaused.mem hin
  obtain ⟨mid, first, rfl⟩ := List.append_of_mem hctx
  have heof := h (later ++ Event.aborted :: mid) first (by simp)
  exact hnot (List.mem_append_right _ (List.mem_cons_of_mem _ heof))

/-- For every capacity of the queue and any interleaving of the calls of `Send`
with the writer, with calls of `Close` and with the end of the agent stream. -/
theorem queued_writes (hsize : 0 < queueSize)
    (h : Reach httpConnectStream.step System.unrestricted
      (newHTTPConnectStream queueSize xfrChannelSize) s) : QueuedWrites s := by
  obtain ⟨hQ, hq⟩ := queue_inv hsize h
  have hshape := shaped h
  have hcaused := log_caused hsize h
  refine ⟨fun hconn => ?_, fun hin => (queue_ordered hsize h hin).1, ?_, ?_, ?_,
    count_single (stream_inv h).2.1.single, not_aborted hcaused, ?_⟩
  · obtain ⟨b, hb⟩ := hQ.connected hconn
    refine ⟨b, hb.symm, ?_⟩
    have hwrote := hQ.wrote
    rw [← hb] at hwrote
    refine ((List.prefix_append_right_inj _).mp hwrote).trans (syncBytes_mono ?_)
    rw [hQ.fifo]
    exact List.prefix_append _ _
  · intro hin m s' hr hconn hclean hfree hsame
    obtain ⟨h1, h2, -⟩ := queue_ordered hsize h hin
    rw [sync_written hr hconn hclean hfree, hsame, h1, h2]
  · intro hclosed t o ho hs
    by_cases hsend : ∃ pkt k, o = .send pkt k
    · obtain ⟨pkt, k, rfl⟩ := hsend
      cases hlock : s.shared.sendLock with
      | none =>
          refine Or.inl ⟨{}, canStep_of_shaped hshape (hshape.alone ho rfl) ?_⟩
          simp [exec, hlock]
      | some t' =>
          obtain ⟨o', ho', hk⟩ := hshape.locked t' hlock
          have hconn : s.shared.connected = true := hq t _ ho
          have hs' : o'.sending = true ∧ ∀ pkt k, o' ≠ .send pkt k :=
            locked_sending hconn hk (hq t' o' ho')
          exact Or.inr ⟨t', rfl, ⟨o', ho', hs'.1⟩, send_canStep hshape hclosed ho' hs'.1 hs'.2⟩
    · exact Or.inl (send_canStep hshape hclosed ho hs fun pkt k heq => hsend ⟨pkt, k, heq⟩)
  · intro hclosed t o ho hs c s' hst
    have hone : s.threads t = [o] := hshape.alone ho (by cases o <;> first | rfl | cases hs)
    rcases System.step_cases hst with ⟨t₁, c₁, o₁, rest, s₁, ops, heq, ht, hex, rfl⟩ |
      ⟨t₁, c₁, o₁, rest, s₁, ops, t₂, ops₂, heq, ht, hex, rfl⟩ | ⟨x, s₁, heq, -⟩ |
      ⟨x, s₁, t₁, ops, heq, -⟩
    · cases heq
      rw [hone] at ht
      cases ht
      obtain ⟨-, hleft⟩ := exec_left hs hclosed hex
      intro o' ho'
      dsimp only at ho'
      rw [Function.update_self, List.append_nil] at ho'
      exact hleft o' ho'
    · cases heq
      rw [hone] at ht
      cases ht
      cases (exec_left hs hclosed hex).1
    · cases heq
    · cases heq
  · intro heof later earlier hlog hclose hgone hfailed hpassed
    have hnot : .aborted ∉ earlier := by
      intro hin
      refine not_aborted hcaused heof ?_
      rw [hlog]
      exact List.mem_append_right _ (List.mem_cons_of_mem _ hin)
    have hclosed : Event.Caused .socketClosed earlier := hcaused.at_append hlog
    exact hclosed ⟨⟨hclose, hnot, hfailed⟩, hgone⟩ hpassed

/-- Two packets of the agent and its end, in a queue for one. The context of
the backend ends before the writer has written anything. -/
theorem queued_writes_eof :
    ∃ s : System.State StreamState Tid Op,
      Reach httpConnectStream.step System.unrestricted
        (newHTTPConnectStream 1 2) s ∧
        written s.shared = connectEstablished ++ [1, 2, 3] ∧ .eof ∈ s.shared.log ∧
        .ctxEnded ∈ s.shared.log ∧ .socketClosed ∈ s.shared.log ∧ QueuedWrites s := by
  let dispatch (n : Nat) : List (System.Action Tid StreamAction Choice) :=
    List.replicate n (.run .dispatch {})
  let acts : List (System.Action Tid StreamAction Choice) :=
    List.flatten
      [.run .dispatch {} :: .run .dispatch { write := some 100 } :: dispatch 3,
        [.arrive (.agentPacket (.data [1, 2])), .run .reader {}, .arrive (.agentPacket (.data [3])),
          .run .reader {}, .arrive .agentEOF, .run .reader {}, .arrive .ctxEnd, .run .abort {},
          .run .reader {}], dispatch 12,
        [.run .dispatch { case := .default }, .run .writer {}, .run .writer {}], dispatch 7,
        [.run .dispatch { case := .default }, .run .writer { write := some 100 }, .run .writer {},
          .run .writer {}], dispatch 2,
        .run .writer { write := some 100 } :: List.replicate 8 (.run .writer {})]
  obtain ⟨s, hs, hend⟩ : ∃ s, run httpConnectStream.step (newHTTPConnectStream 1 2) acts = some s ∧
      decide (written s.shared = connectEstablished ++ [1, 2, 3] ∧ .eof ∈ s.shared.log ∧
        .ctxEnded ∈ s.shared.log ∧ .socketClosed ∈ s.shared.log) = true :=
    run_any (by decide)
  obtain ⟨h1, h2, h3, h4⟩ := of_decide_eq_true hend
  have hreach : Reach httpConnectStream.step System.unrestricted
      (newHTTPConnectStream 1 2) s :=
    reach_of_run hs (by decide)
  exact ⟨s, hreach, h1, h2, h3, h4, queued_writes (by decide) hreach⟩

end Runs

end Konnectivity.Server.HttpConnect
