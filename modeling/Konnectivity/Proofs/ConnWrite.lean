import Konnectivity.Proofs.ConnRead

/-!
# The send side of `serverConn`

There is one writer, and it waits for each packet before it starts the next,
so that at most one packet is on its way. When the writer gives up on it, the
connection is closed or `writeErr` is set, and it will not start another. What
the stream got is therefore what the writer was told, and perhaps the one
packet it gave up on.
-/

namespace Konnectivity.Server.Conn

open Lib

/-! ## Whose operations -/

/-- The operations of `SendContext` under a context. -/
def Op.ofSend (ctx : SendCtx) (k : AfterSend) : Op → Bool
  | .sendContext ctx' _ k' | .lockSend ctx' _ k' | .sendLocked ctx' _ k' => ctx' = ctx ∧ k' = k
  | .streamSend _ k' | .sendDone k' _ => k' = k
  | .unlockSend => true
  | _ => false

/-- The operations of a goroutine. -/
def Op.of : Tid → Op → Bool
  | .reader _, .read _ => true
  | .writer, .write _ | .writer, .writePacket _ | .writer, .startSend _ => true
  | .writer, .loadDeadline _ _ | .writer, .select _ _ _ _ | .writer, .setWriteErr _ _ => true
  | .writer, .cancelSend _ | .writer, .writeReturn _ _ => true
  | .agent _, .handleData _ | .agent _, .removeEstablished | .agent _, .handleClose _ => true
  | .closer _, .close | .closer _, .closeLocked | .closer _, .cancel => true
  | .closer _, .closeRemove | .closer _, .queueSend _ => true
  | .packet i, o => o.ofSend (.packet i) (.packet i)
  | .queue, .sendQueued => true
  | .queue, o => o.ofSend .backend .nobody
  | .other _, .queueSend _ => true
  | .other _, o => o.ofSend .backend .nobody
  | _, _ => false

section Owner

variable {s s₁ : ConnState} {t : Tid} {c : Choice} {op : Op} {ops : List Op}
  {start : Option (Tid × List Op)}

/-- `SendContext` stays in `SendContext`. -/
theorem exec_ofSend (ctx : SendCtx) (k : AfterSend)
    (hex : exec s t c op = some (s₁, ops, start)) (hop : op.ofSend ctx k = true) :
    start = none ∧ ∀ o ∈ ops, o.ofSend ctx k = true := by
  cases op with
  | sendContext ctx' pkt k' =>
      simp only [Op.ofSend, decide_eq_true_eq] at hop
      simp only [exec] at hex
      split at hex <;> cases hex <;> simp [Op.ofSend, hop]
  | lockSend ctx' pkt k' =>
      simp only [Op.ofSend, decide_eq_true_eq] at hop
      simp only [exec] at hex
      repeat' split at hex
      all_goals cases hex
      all_goals simp [Op.ofSend, hop]
  | sendLocked ctx' pkt k' =>
      simp only [Op.ofSend, decide_eq_true_eq] at hop
      simp only [exec] at hex
      split at hex <;> cases hex <;> simp [Op.ofSend, hop]
  | streamSend pkt k' =>
      simp only [Op.ofSend, decide_eq_true_eq] at hop
      simp only [exec] at hex
      cases hex
      simp [Op.ofSend, hop]
  | unlockSend =>
      simp only [exec] at hex
      cases hex
      simp
  | sendDone k' err =>
      simp only [exec] at hex
      split at hex <;> cases hex <;> simp
  | _ => cases hop

theorem exec_of (hop : op.of t = true) (hex : exec s t c op = some (s₁, ops, start)) :
    (∀ o ∈ ops, o.of t = true) ∧ ∀ t' ops', start = some (t', ops') →
      (∀ o ∈ ops', o.of t' = true) ∧
        ((t' = .queue ∧ t ≠ .writer) ∨ (t' = .packet s.started ∧ t = .writer)) := by
  cases t with
  | packet i =>
      obtain ⟨rfl, hops⟩ := exec_ofSend (.packet i) (.packet i) hex hop
      exact ⟨hops, fun _ _ h => nomatch h⟩
  | queue =>
      cases op with
      | sendQueued =>
          simp only [exec] at hex
          split at hex <;> cases hex
          · exact ⟨by simp, fun _ _ h => nomatch h⟩
          · refine ⟨?_, fun _ _ h => nomatch h⟩
            simp [Op.of, Op.ofSend]
      | _ =>
          first
          | cases hop
            done
          | obtain ⟨rfl, hops⟩ := exec_ofSend .backend .nobody hex hop
            refine ⟨fun o ho => ?_, fun _ _ h => nomatch h⟩
            have := hops o ho
            cases o <;> first | exact this | cases this
  | other k =>
      cases op with
      | queueSend pkt =>
          simp only [exec] at hex
          cases hex
          refine ⟨by simp, fun t' ops' h => ?_⟩
          split at h
          · cases h
          · cases h
            exact ⟨by simp [Op.of], Or.inl ⟨rfl, by simp⟩⟩
      | _ =>
          first
          | cases hop
            done
          | obtain ⟨rfl, hops⟩ := exec_ofSend .backend .nobody hex hop
            refine ⟨fun o ho => ?_, fun _ _ h => nomatch h⟩
            have := hops o ho
            cases o <;> first | exact this | cases this
  | reader k =>
      cases op with
      | read n =>
          simp only [exec] at hex
          split at hex <;> cases hex
          · exact ⟨by simp [Op.of], fun _ _ h => nomatch h⟩
          · exact ⟨by simp, fun _ _ h => nomatch h⟩
      | _ => cases hop
  | agent k =>
      cases op with
      | handleData data =>
          simp only [exec] at hex
          repeat' split at hex
          all_goals cases hex
          all_goals exact ⟨by simp [Op.of], fun _ _ h => nomatch h⟩
      | removeEstablished =>
          simp only [exec] at hex
          cases hex
          exact ⟨by simp, fun _ _ h => nomatch h⟩
      | handleClose errMsg =>
          simp only [exec] at hex
          split at hex <;> cases hex
          all_goals exact ⟨by simp, fun _ _ h => nomatch h⟩
      | _ => cases hop
  | closer k =>
      cases op with
      | queueSend pkt =>
          simp only [exec] at hex
          cases hex
          refine ⟨by simp, fun t' ops' h => ?_⟩
          split at h
          · cases h
          · cases h
            exact ⟨by simp [Op.of], Or.inl ⟨rfl, by simp⟩⟩
      | _ =>
          first
          | cases hop
            done
          | simp only [exec] at hex
            repeat' split at hex
            all_goals cases hex
            all_goals exact ⟨by simp [Op.of], fun _ _ h => nomatch h⟩
  | writer =>
      cases op with
      | startSend w =>
          simp only [exec] at hex
          cases hex
          refine ⟨by simp [Op.of], fun t' ops' h => ?_⟩
          cases h
          exact ⟨by simp [Op.of, Op.ofSend], Or.inr ⟨rfl, rfl⟩⟩
      | select i deadline changed w =>
          simp only [exec] at hex
          obtain ⟨ops', hsel, heq⟩ := Option.map_eq_some_iff.mp hex
          cases heq
          refine ⟨?_, fun _ _ h => nomatch h⟩
          unfold ConnState.select packetDone at hsel
          repeat' split at hsel
          all_goals cases hsel
          all_goals simp [Op.of]
      | setWriteErr i w =>
          simp only [exec] at hex
          cases hex
          exact ⟨by simp [packetDone, Op.of], fun _ _ h => nomatch h⟩
      | _ =>
          first
          | cases hop
            done
          | simp only [exec] at hex
            repeat' split at hex
            all_goals cases hex
            all_goals exact ⟨by simp [Op.of], fun _ _ h => nomatch h⟩

theorem arrive_of {a : ConnAction} (harr : arrive s a = some (s₁, start)) {t' : Tid}
    {ops' : List Op} (h : start = some (t', ops')) :
    (∀ o ∈ ops', o.of t' = true) ∧ t' ≠ .queue ∧ ∀ i, t' ≠ .packet i := by
  subst h
  cases a <;> simp only [arrive] at harr <;> repeat' split at harr
  all_goals cases harr
  all_goals exact ⟨by simp [Op.of, Op.ofSend], by simp, by simp⟩

end Owner

theorem serverConn_of {connID : ConnectID} {size : Nat}
    {okExec : ConnState → Tid → Choice → Op → Prop} {okArrive : ConnState → ConnAction → Prop}
    {s : System.State ConnState Tid Op}
    (h : Reach serverConn.step (System.Allowed okExec okArrive) (newServerConn connID size) s)
    {t : Tid} {o : Op} (ho : o ∈ s.threads t) : o.of t = true := by
  refine (System.invariant (fun _ => True) (fun _ t o => o.of t = true) trivial ?_ ?_ ?_ h).2 t o ho
  · exact fun t o ho => nomatch ho
  · intro s a s₁ start _ _ _ harr
    refine ⟨trivial, fun _ _ h => h, ?_⟩
    cases start with
    | none => trivial
    | some st => exact (arrive_of harr rfl).1
  · intro s t c o rest s₁ ops start _ _ _ hop _ hex
    obtain ⟨h1, h2⟩ := exec_of hop hex
    refine ⟨trivial, fun _ _ h => h, h1, ?_⟩
    cases start with
    | none => trivial
    | some st => exact (h2 _ _ rfl).1

/-! ## What was sent and what was reported -/

def payload (pkt : Packet) : Bytes := (pkt.getData.map fun m => m.data).getD []

def Event.sentData : Event → Bytes
  | .sent (.packet _) pkt true => payload pkt
  | _ => []

def Event.reportedData : Event → Bytes
  | .wrote b n _ => b.take n
  | _ => []

/-- The payloads of the packets of the connection that were sent, in order. -/
def sentBytes (log : List Event) : Bytes := log.reverse.flatMap Event.sentData

/-- What the calls of `Write` reported as written, in order. -/
def reportedBytes (log : List Event) : Bytes := log.reverse.flatMap Event.reportedData

@[simp]
theorem sentBytes_cons (e : Event) (log : List Event) :
    sentBytes (e :: log) = sentBytes log ++ e.sentData := by
  simp [sentBytes]

@[simp]
theorem reportedBytes_cons (e : Event) (log : List Event) :
    reportedBytes (e :: log) = reportedBytes log ++ e.reportedData := by
  simp [reportedBytes]

/-- The events of the writer and of its packets. -/
def Event.writing : Event → Bool
  | .sendStarted _ | .sent (.packet _) _ _ | .wrote _ _ _ | .timedOut => true
  | _ => false

/-- What an event says about the log before it. -/
def Event.WriteJustified : Event → List Event → Prop
  | .sendStarted _, log => .timedOut ∉ log
  | .wrote b _ err, log => .timedOut ∈ log → b ≠ [] → err ≠ none
  | _, _ => True

theorem writing_append {es : List Event} (hes : ∀ e ∈ es, e.writing = false) (log : List Event) :
    sentBytes (es ++ log) = sentBytes log ∧ reportedBytes (es ++ log) = reportedBytes log ∧
      (Pool.Each Event.WriteJustified log → Pool.Each Event.WriteJustified (es ++ log)) := by
  induction es with
  | nil => exact ⟨rfl, rfl, id⟩
  | cons e es ih =>
      obtain ⟨h1, h2, h3⟩ := ih fun x hx => hes x (List.mem_cons_of_mem _ hx)
      have he := hes e List.mem_cons_self
      have hsilent : e.sentData = [] ∧ e.reportedData = [] ∧ ∀ log, e.WriteJustified log := by
        cases e with
        | sent t pkt ok =>
            cases t with
            | packet i => cases he
            | _ => exact ⟨rfl, rfl, fun _ => trivial⟩
        | sendStarted i => cases he
        | wrote b n err => cases he
        | timedOut => cases he
        | _ => exact ⟨rfl, rfl, fun _ => trivial⟩
      obtain ⟨hs, hr, hj⟩ := hsilent
      refine ⟨?_, ?_, fun h => ⟨hj _, h3 h⟩⟩
      · rw [List.cons_append, sentBytes_cons, hs, List.append_nil, h1]
      · rw [List.cons_append, reportedBytes_cons, hr, List.append_nil, h2]

theorem mem_writing_append {es log : List Event} (hes : ∀ e ∈ es, e.writing = false) {e : Event}
    (he : e.writing = true) : e ∈ es ++ log ↔ e ∈ log := by
  rw [List.mem_append]
  refine or_iff_right fun hin => ?_
  rw [hes e hin] at he
  cases he

/-! ## Where the writer and its packets are -/

inductive Stage where
  | idle
  /-- Between two packets. -/
  | ready (w : Writing)
  /-- `writePacket` has found the connection writable. -/
  | checked (w : Writing)
  /-- `writePacket` waits for its packet. -/
  | flying (i : Nat) (w : Writing)
  | leaving (w : Writing) (err : Option ConnError)

/-- The paths of the writer. -/
inductive Writes : Stage → List Op → Prop
  | idle : Writes .idle []
  | write {w : Writing} : Writes (.ready w) [.write w]
  | cancelled {i : Nat} {w : Writing} : Writes (.ready w) [.cancelSend i, .write w]
  | writePacket {w : Writing} (hn : w.n < w.b.length) : Writes (.ready w) [.writePacket w]
  | startSend {w : Writing} (hn : w.n < w.b.length) : Writes (.checked w) [.startSend w]
  | loadDeadline {i : Nat} {w : Writing} : Writes (.flying i w) [.loadDeadline i w]
  | select {i : Nat} {d : Option Time} {g : Nat} {w : Writing} :
      Writes (.flying i w) [.select i d g w]
  | setWriteErr {i : Nat} {w : Writing} : Writes (.flying i w) [.setWriteErr i w]
  | giveUp {i : Nat} {w : Writing} {err : ConnError} :
      Writes (.leaving w (some err)) [.cancelSend i, .writeReturn w (some err)]
  | writeReturn {w : Writing} {err : Option ConnError} :
      Writes (.leaving w err) [.writeReturn w err]

/-- What the current `Write` has written so far. -/
def Stage.progress : Stage → Bytes
  | .idle => []
  | .ready w | .checked w | .flying _ w | .leaving w _ => w.b.take w.n

inductive Phase where
  | pending
  | done (err : Option ConnError)

/-- The paths of the goroutine of a packet, with what is in `errCh`. -/
inductive PacketAt (i : Nat) (pkt : Packet) : Phase → Option (Option ConnError) → List Op → Prop
  | sendContext : PacketAt i pkt .pending none [.sendContext (.packet i) pkt (.packet i)]
  | lockSend : PacketAt i pkt .pending none [.lockSend (.packet i) pkt (.packet i)]
  | sendLocked : PacketAt i pkt .pending none [.sendLocked (.packet i) pkt (.packet i)]
  | streamSend : PacketAt i pkt .pending none [.streamSend pkt (.packet i)]
  | unlockSend {err : Option ConnError} :
      PacketAt i pkt (.done err) none [.unlockSend, .sendDone (.packet i) err]
  | sendDone {err : Option ConnError} : PacketAt i pkt (.done err) none [.sendDone (.packet i) err]
  | ended {err : Option ConnError} : PacketAt i pkt (.done err) (some err) []

/-- The packet that was started last, while the writer has no answer for it. -/
abbrev Last := Option (Writing × Phase)

/-- What was sent of it and not yet counted. -/
def unacked : Last → Bytes
  | some (w, .done none) => w.chunk
  | _ => []

/-- The writer has given up on the packet and will not start another. -/
def GaveUp (s : ConnState) (stage : Stage) (w : Writing) : Prop :=
  (s.closed = true ∨ s.writeErr.isSome = true) ∧
    ((∃ err, stage = .leaving w (some err)) ∨ ∃ err, .wrote w.b w.n (some err) ∈ s.log)

/-- What the writer knows of the last packet. -/
def StageLast (s : ConnState) (last : Last) : Stage → Prop
  | .flying i w => i + 1 = s.started ∧ ∃ phase, last = some (w, phase)
  | .checked _ => last = none
  | stage => ∀ w phase, last = some (w, phase) → GaveUp s stage w

/-- No write has timed out, as far as the stage tells. -/
def Stage.untimed : Stage → Prop
  | .idle => False
  | .ready w => 0 < w.n
  | .checked _ | .flying _ _ => True
  | .leaving w err => w.b ≠ [] ∧ err = none

structure WriteInv (s : System.State ConnState Tid Op) (stage : Stage) (last : Last) : Prop where
  writer : Writes stage (s.threads .writer)
  future : ∀ i, s.shared.started ≤ i →
    s.threads (.packet i) = [] ∧ (s.shared.sends i).errCh = none
  past : ∀ i, i < s.shared.started → (i + 1 = s.shared.started → last = none) →
    ∃ pkt err, PacketAt i pkt (.done err) (s.shared.sends i).errCh (s.threads (.packet i))
  current : ∀ w phase, last = some (w, phase) → ∃ i, i + 1 = s.shared.started ∧
    PacketAt i (s.shared.dataPacket w) phase (s.shared.sends i).errCh (s.threads (.packet i))
  known : StageLast s.shared last stage
  balance : sentBytes s.shared.log = reportedBytes s.shared.log ++ stage.progress ++ unacked last
  ctx : s.shared.ctxDone = true → s.shared.closed = true
  timed : .timedOut ∈ s.shared.log → s.shared.writeErr.isSome = true
  untimed : stage.untimed → .timedOut ∉ s.shared.log
  packets : ∀ i pkt ok, .sent (.packet i) pkt ok ∈ s.shared.log →
    ∃ data, pkt = .ofData ⟨s.shared.connID, "", data⟩ ∧ data.length ≤ maxConnDataPacketSize
  justified : Pool.Each Event.WriteJustified s.shared.log

theorem GaveUp.mono {s s₁ : ConnState} {stage : Stage} {w : Writing} (h : GaveUp s stage w)
    (hclosed : s.closed = true → s₁.closed = true)
    (herr : s.writeErr.isSome = true → s₁.writeErr.isSome = true) (hlog : s.log ⊆ s₁.log) :
    GaveUp s₁ stage w := by
  obtain ⟨h1, h2⟩ := h
  exact ⟨h1.imp hclosed herr, h2.imp_right fun ⟨err, he⟩ => ⟨err, hlog he⟩⟩

/-! ## Steps of the others -/

section Steps

variable {s : System.State ConnState Tid Op} {s₁ : ConnState} {stage : Stage} {last : Last}
  {t : Tid} {c : Choice} {op : Op} {ops rest : List Op} {start : Option (Tid × List Op)}
  {threads : Tid → List Op}

/-- A step of neither the writer nor a packet. -/
theorem WriteInv.aside (h : WriteInv s stage last) (es : List Event)
    (hlog : s₁.log = es ++ s.shared.log) (hes : ∀ e ∈ es, e.writing = false)
    (hsends : s₁.sends = s.shared.sends) (hstarted : s₁.started = s.shared.started)
    (hconn : s₁.connID = s.shared.connID) (herr : s₁.writeErr = s.shared.writeErr)
    (hclosed : s.shared.closed = true → s₁.closed = true)
    (hctx : s₁.ctxDone = true → s₁.closed = true)
    (hwriter : threads .writer = s.threads .writer)
    (hpackets : ∀ i, threads (.packet i) = s.threads (.packet i)) :
    WriteInv ⟨s₁, threads⟩ stage last := by
  obtain ⟨h1, h2, h3⟩ := writing_append hes s.shared.log
  have hsub : s.shared.log ⊆ s₁.log := by
    rw [hlog]
    exact List.subset_append_right _ _
  have htimed : .timedOut ∈ s₁.log ↔ .timedOut ∈ s.shared.log := by
    rw [hlog]
    exact mem_writing_append hes rfl
  have hdata : ∀ w, s₁.dataPacket w = s.shared.dataPacket w := by
    intro w
    rw [ConnState.dataPacket, hconn]
    rfl
  have hgave : ∀ {stage w}, GaveUp s.shared stage w → GaveUp s₁ stage w := fun hg =>
    hg.mono hclosed (by rw [herr]; exact id) hsub
  refine ⟨?_, fun i hi => ?_, fun i hi hl => ?_, fun w phase hl => ?_, ?_, ?_, hctx,
    fun ht => ?_, fun hu ht => h.untimed hu (htimed.mp ht), fun i pkt ok hs => ?_, ?_⟩
  · dsimp only
    rw [hwriter]
    exact h.writer
  · dsimp only at hi ⊢
    rw [hpackets, hsends]
    exact h.future i (hstarted ▸ hi)
  · dsimp only at hi hl ⊢
    rw [hpackets, hsends]
    rw [hstarted] at hi hl
    exact h.past i hi hl
  · obtain ⟨i, hi, hp⟩ := h.current w phase hl
    refine ⟨i, hstarted ▸ hi, ?_⟩
    dsimp only
    rw [hpackets, hsends, hdata]
    exact hp
  · have hknown := h.known
    dsimp only
    cases stage with
    | flying i w => exact ⟨hstarted ▸ hknown.1, hknown.2⟩
    | checked w => exact hknown
    | idle => exact fun w phase hl => hgave (hknown w phase hl)
    | ready w' => exact fun w phase hl => hgave (hknown w phase hl)
    | leaving w' err => exact fun w phase hl => hgave (hknown w phase hl)
  · dsimp only
    rw [hlog, h1, h2]
    exact h.balance
  · dsimp only
    rw [herr]
    exact h.timed (htimed.mp ht)
  · dsimp only at hs ⊢
    rw [hconn]
    rw [hlog] at hs
    exact h.packets i pkt ok ((mem_writing_append hes rfl).mp hs)
  · dsimp only
    rw [hlog]
    exact h3 h.justified

/-- What the other goroutines do. -/
theorem exec_aside {s : ConnState} (hop : op.of t = true) (ht : t ≠ .writer)
    (ht' : ∀ i, t ≠ .packet i) (hex : exec s t c op = some (s₁, ops, start)) :
    ∃ es, s₁.log = es ++ s.log ∧ (∀ e ∈ es, e.writing = false) ∧ s₁.sends = s.sends ∧
      s₁.started = s.started ∧ s₁.connID = s.connID ∧ s₁.writeErr = s.writeErr ∧
      (s.closed = true → s₁.closed = true) ∧
      (s₁.ctxDone = true → s.ctxDone = true ∨ op = .cancel) := by
  have hsent : ∀ pkt ok, Event.writing (.sent t pkt ok) = false := by
    intro pkt ok
    cases t with
    | packet i => exact absurd rfl (ht' i)
    | _ => rfl
  cases op with
  | read n =>
      have hspec := readLoop_spec s n s.buffer s.rdata s.now c.elapsed
      simp only [exec] at hex
      generalize s.readLoop n s.rdata s.buffer s.now c.elapsed = r at hex hspec
      obtain ⟨s', result⟩ := r
      obtain ⟨⟨⟨now, hframe⟩, -, -⟩, -, -⟩ := hspec
      dsimp only at hframe
      cases result with
      | none =>
          cases hex
          rw [hframe]
          exact ⟨[], rfl, by simp, rfl, rfl, rfl, rfl, id, Or.inl⟩
      | some result =>
          cases hex
          rw [hframe]
          exact ⟨[_], rfl, by simp [Event.writing], rfl, rfl, rfl, rfl, id, Or.inl⟩
  | streamSend pkt k =>
      simp only [exec] at hex
      cases hex
      refine ⟨[_], rfl, fun e he => ?_, rfl, rfl, rfl, rfl, id, Or.inl⟩
      rw [List.mem_singleton.mp he]
      exact hsent pkt c.ok
  | sendDone k err =>
      have hk : k = .nobody := by
        cases t with
        | queue => simpa [Op.of, Op.ofSend] using hop
        | other n => simpa [Op.of, Op.ofSend] using hop
        | packet i => exact absurd rfl (ht' i)
        | _ => cases hop
      subst hk
      simp only [exec] at hex
      cases hex
      exact ⟨[], rfl, by simp, rfl, rfl, rfl, rfl, id, Or.inl⟩
  | cancel =>
      simp only [exec] at hex
      cases hex
      exact ⟨[], rfl, by simp, rfl, rfl, rfl, rfl, id, fun _ => Or.inr rfl⟩
  | closeLocked =>
      simp only [exec] at hex
      cases hex
      exact ⟨[_], rfl, by simp [Event.writing], rfl, rfl, rfl, rfl, fun _ => rfl, Or.inl⟩
  | handleClose errMsg =>
      simp only [exec] at hex
      split at hex <;> cases hex
      · exact ⟨[], rfl, by simp, rfl, rfl, rfl, rfl, id, Or.inl⟩
      · exact ⟨[_], rfl, by simp [Event.writing], rfl, rfl, rfl, rfl, fun _ => rfl, Or.inl⟩
  | _ =>
      cases t with
      | writer => exact absurd rfl ht
      | packet i => exact absurd rfl (ht' i)
      | _ =>
          first
          | cases hop
            done
          | simp only [exec] at hex
            repeat' split at hex
            all_goals cases hex
            all_goals first
              | exact ⟨[], rfl, by simp, rfl, rfl, rfl, rfl, id, Or.inl⟩
              | exact ⟨[_], rfl, by simp [Event.writing], rfl, rfl, rfl, rfl, id, Or.inl⟩

/-! ## Steps of a packet -/

/-- One operation of the goroutine of a packet. -/
theorem PacketAt.exec {s : ConnState} {i : Nat} {pkt : Packet} {phase : Phase}
    (h : PacketAt i pkt phase (s.sends i).errCh (op :: rest))
    (hex : exec s (.packet i) c op = some (s₁, ops, start)) :
    start = none ∧ s₁.started = s.started ∧ s₁.connID = s.connID ∧ s₁.writeErr = s.writeErr ∧
      s₁.closed = s.closed ∧ s₁.ctxDone = s.ctxDone ∧
      (∀ j, j ≠ i → s₁.sends j = s.sends j) ∧
      ∃ phase', PacketAt i pkt phase' (s₁.sends i).errCh (ops ++ rest) ∧
        ((s₁.log = s.log ∧ (phase' = phase ∨ ∃ err, phase = .pending ∧ phase' = .done (some err))) ∨
          (∃ ok, s₁.log = .sent (.packet i) pkt ok :: s.log ∧ phase = .pending ∧
            phase' = .done (if ok then none else some .stream))) := by
  generalize herrCh : (s.sends i).errCh = e at h
  cases h with
  | sendContext =>
      simp only [Conn.exec] at hex
      split at hex <;> cases hex
      · refine ⟨rfl, rfl, rfl, rfl, rfl, rfl, fun _ _ => rfl,
          .done (some .contextCanceled), ?_, Or.inl ⟨rfl, Or.inr ⟨_, rfl, rfl⟩⟩⟩
        rw [herrCh]
        exact .sendDone
      · refine ⟨rfl, rfl, rfl, rfl, rfl, rfl, fun _ _ => rfl, .pending, ?_,
          Or.inl ⟨rfl, Or.inl rfl⟩⟩
        rw [herrCh]
        exact .lockSend
  | lockSend =>
      simp only [Conn.exec] at hex
      repeat' split at hex
      all_goals cases hex
      · refine ⟨rfl, rfl, rfl, rfl, rfl, rfl, fun _ _ => rfl, .pending, ?_,
          Or.inl ⟨rfl, Or.inl rfl⟩⟩
        dsimp only
        rw [herrCh]
        exact .sendLocked
      · refine ⟨rfl, rfl, rfl, rfl, rfl, rfl, fun _ _ => rfl,
          .done (some .contextCanceled), ?_, Or.inl ⟨rfl, Or.inr ⟨_, rfl, rfl⟩⟩⟩
        rw [herrCh]
        exact .sendDone
  | sendLocked =>
      simp only [Conn.exec] at hex
      split at hex <;> cases hex
      · refine ⟨rfl, rfl, rfl, rfl, rfl, rfl, fun _ _ => rfl,
          .done (some .contextCanceled), ?_, Or.inl ⟨rfl, Or.inr ⟨_, rfl, rfl⟩⟩⟩
        rw [herrCh]
        exact .unlockSend
      · refine ⟨rfl, rfl, rfl, rfl, rfl, rfl, fun _ _ => rfl, .pending, ?_,
          Or.inl ⟨rfl, Or.inl rfl⟩⟩
        rw [herrCh]
        exact .streamSend
  | streamSend =>
      simp only [Conn.exec] at hex
      cases hex
      refine ⟨rfl, rfl, rfl, rfl, rfl, rfl, fun _ _ => rfl, .done _, ?_,
        Or.inr ⟨c.ok, rfl, rfl, rfl⟩⟩
      rw [ConnState.record_sends, herrCh]
      exact .unlockSend
  | unlockSend =>
      simp only [Conn.exec] at hex
      cases hex
      refine ⟨rfl, rfl, rfl, rfl, rfl, rfl, fun _ _ => rfl, .done _, ?_, Or.inl ⟨rfl, Or.inl rfl⟩⟩
      dsimp only
      rw [herrCh]
      exact .sendDone
  | sendDone =>
      simp only [Conn.exec] at hex
      cases hex
      refine ⟨rfl, rfl, rfl, rfl, rfl, rfl, fun j hj => Function.update_of_ne hj _ _, .done _, ?_,
        Or.inl ⟨rfl, Or.inl rfl⟩⟩
      rw [ConnState.setSend_sends, Function.update_self]
      exact .ended

/-- What the writer knows of the last packet survives the steps of the packets. -/
theorem StageLast.packet {s : ConnState} {last' : Last} (hknown : StageLast s last stage)
    (hsome : (∃ w phase, last = some (w, phase)) ↔ ∃ w phase, last' = some (w, phase))
    (hsame : ∀ w phase, last' = some (w, phase) → ∃ phase', last = some (w, phase'))
    (hstarted : s₁.started = s.started)
    (hgave : ∀ {stage w}, GaveUp s stage w → GaveUp s₁ stage w) : StageLast s₁ last' stage := by
  cases stage with
  | flying k w =>
      obtain ⟨hk, phase, hl⟩ := hknown
      obtain ⟨w', phase', hl'⟩ := hsome.mp ⟨w, phase, hl⟩
      obtain ⟨phase'', hl''⟩ := hsame w' phase' hl'
      rw [hl] at hl''
      cases hl''
      exact ⟨hstarted ▸ hk, phase', hl'⟩
  | checked w =>
      have hknown : last = none := hknown
      change last' = none
      cases hlast' : last' with
      | none => rfl
      | some x =>
          obtain ⟨w, phase, hw⟩ := hsome.mpr ⟨x.1, x.2, hlast'⟩
          rw [hknown] at hw
          cases hw
  | idle =>
      intro w phase hl
      obtain ⟨phase', hl'⟩ := hsame w phase hl
      exact hgave (hknown w phase' hl')
  | ready w' =>
      intro w phase hl
      obtain ⟨phase', hl'⟩ := hsame w phase hl
      exact hgave (hknown w phase' hl')
  | leaving w' err =>
      intro w phase hl
      obtain ⟨phase', hl'⟩ := hsame w phase hl
      exact hgave (hknown w phase' hl')

/-- The goroutine of a packet makes a step; `last'` is what is known of the last one then. -/
theorem WriteInv.packet (h : WriteInv s stage last) {last' : Last} {i : Nat}
    (hsome : (∃ w phase, last = some (w, phase)) ↔ ∃ w phase, last' = some (w, phase))
    (hsame : ∀ w phase, last' = some (w, phase) → ∃ phase', last = some (w, phase'))
    (hstarted : s₁.started = s.shared.started) (hconn : s₁.connID = s.shared.connID)
    (herr : s₁.writeErr = s.shared.writeErr) (hclosed : s₁.closed = s.shared.closed)
    (hctx : s₁.ctxDone = s.shared.ctxDone) (hsends : ∀ j, j ≠ i → s₁.sends j = s.shared.sends j)
    (hlt : i < s.shared.started)
    (hpast : (i + 1 = s.shared.started → last = none) →
      ∃ pkt err, PacketAt i pkt (.done err) (s₁.sends i).errCh ops)
    (hlast : ∀ w phase, last' = some (w, phase) → i + 1 = s.shared.started →
      PacketAt i (s.shared.dataPacket w) phase (s₁.sends i).errCh ops)
    (hother : ∀ w phase, last' = some (w, phase) → i + 1 ≠ s.shared.started → last = last')
    (es : List Event) (hlog : s₁.log = es ++ s.shared.log)
    (hes : ∀ e ∈ es, ∃ pkt ok, e = .sent (.packet i) pkt ok ∧
      ∃ data, pkt = .ofData ⟨s.shared.connID, "", data⟩ ∧ data.length ≤ maxConnDataPacketSize)
    (hbytes : sentBytes s₁.log =
      reportedBytes s.shared.log ++ stage.progress ++ unacked last') :
    WriteInv ⟨s₁, Function.update s.threads (.packet i) ops⟩ stage last' := by
  have hsub : s.shared.log ⊆ s₁.log := by
    rw [hlog]
    exact List.subset_append_right _ _
  have htimed : .timedOut ∈ s₁.log → .timedOut ∈ s.shared.log := by
    intro ht
    rw [hlog] at ht
    refine (List.mem_append.mp ht).resolve_left fun hin => ?_
    obtain ⟨pkt, ok, heq, -⟩ := hes _ hin
    cases heq
  have hreported : reportedBytes s₁.log = reportedBytes s.shared.log ∧
      Pool.Each Event.WriteJustified s₁.log := by
    rw [hlog]
    clear hlog hbytes
    induction es with
    | nil => exact ⟨rfl, h.justified⟩
    | cons e es ih =>
        obtain ⟨pkt, ok, rfl, -⟩ := hes e List.mem_cons_self
        obtain ⟨h1, h2⟩ := ih (fun x hx => hes x (List.mem_cons_of_mem _ hx))
        exact ⟨by simpa [Event.reportedData] using h1, trivial, h2⟩
  have hdata : ∀ w, s₁.dataPacket w = s.shared.dataPacket w := by
    intro w
    rw [ConnState.dataPacket, hconn]
    rfl
  have hgave : ∀ {stage w}, GaveUp s.shared stage w → GaveUp s₁ stage w := fun hg =>
    hg.mono (by rw [hclosed]; exact id) (by rw [herr]; exact id) hsub
  have hthreads : ∀ j, j ≠ i →
      Function.update s.threads (.packet i) ops (.packet j) = s.threads (.packet j) :=
    fun j hj => Function.update_of_ne (by simpa using hj) _ _
  refine ⟨?_, fun j hj => ?_, fun j hj hl => ?_, fun w phase hl => ?_, ?_, ?_, ?_,
    fun ht => ?_, fun hu ht => h.untimed hu (htimed ht), fun j pkt ok hs => ?_, hreported.2⟩
  · dsimp only
    rw [Function.update_of_ne (by simp)]
    exact h.writer
  · dsimp only at hj ⊢
    have hji : j ≠ i := by omega
    rw [hthreads j hji, hsends j hji]
    exact h.future j (hstarted ▸ hj)
  · dsimp only at hj hl ⊢
    rw [hstarted] at hj hl
    have hl' : j + 1 = s.shared.started → last = none := by
      intro hj1
      cases hlast : last with
      | none => rfl
      | some x =>
          obtain ⟨w, phase, hw⟩ := hsome.mp ⟨x.1, x.2, hlast⟩
          rw [hl hj1] at hw
          cases hw
    by_cases hji : j = i
    · subst hji
      rw [Function.update_self]
      exact hpast hl'
    · rw [hthreads j hji, hsends j hji]
      exact h.past j hj hl'
  · dsimp only
    by_cases hi : i + 1 = s.shared.started
    · refine ⟨i, hstarted ▸ hi, ?_⟩
      rw [Function.update_self, hdata]
      exact hlast w phase hl hi
    · obtain ⟨j, hj, hp⟩ := h.current w phase ((hother w phase hl hi).trans hl)
      have hji : j ≠ i := by
        rintro rfl
        exact hi hj
      refine ⟨j, hstarted ▸ hj, ?_⟩
      rw [hthreads j hji, hsends j hji, hdata]
      exact hp
  · exact h.known.packet hsome hsame hstarted hgave
  · dsimp only
    rw [hbytes, hreported.1]
  · dsimp only
    rw [hctx, hclosed]
    exact h.ctx
  · dsimp only
    rw [herr]
    exact h.timed (htimed ht)
  · dsimp only at hs ⊢
    rw [hconn]
    rw [hlog] at hs
    rcases List.mem_append.mp hs with hs | hs
    · obtain ⟨pkt', ok', heq, hp⟩ := hes _ hs
      cases heq
      exact hp
    · exact h.packets j pkt ok hs

theorem chunk_length (w : Writing) : w.chunk.length ≤ maxConnDataPacketSize :=
  List.length_take_le _ _

theorem WriteInv.exec_packet (h : WriteInv s stage last) {i : Nat}
    (ht : s.threads (.packet i) = op :: rest)
    (hex : exec s.shared (.packet i) c op = some (s₁, ops, start)) :
    start = none ∧
      ∃ last', WriteInv ⟨s₁, Function.update s.threads (.packet i) (ops ++ rest)⟩ stage last' := by
  have hlt : i < s.shared.started := by
    by_contra hi
    rw [(h.future i (Nat.le_of_not_lt hi)).1] at ht
    cases ht
  by_cases hold : i + 1 = s.shared.started → last = none
  · -- A packet whose result is known only winds up.
    obtain ⟨pkt, err, hp⟩ := h.past i hlt hold
    rw [ht] at hp
    obtain ⟨hstart, h1, h2, h3, h4, h5, h6, phase', hp', hlog'⟩ := hp.exec hex
    obtain ⟨hlog, rfl⟩ : s₁.log = s.shared.log ∧ phase' = .done err := by
      rcases hlog' with ⟨hlog, hph | ⟨err', hph, -⟩⟩ | ⟨ok, -, hph, -⟩
      · exact ⟨hlog, hph⟩
      · cases hph
      · cases hph
    refine ⟨hstart, last, h.packet Iff.rfl (fun w phase hl => ⟨phase, hl⟩) h1 h2 h3 h4 h5 h6 hlt
      (fun _ => ⟨pkt, err, hp'⟩) (fun w phase hl hi => ?_) (fun _ _ _ _ => rfl) [] hlog
      (by simp) ?_⟩
    · rw [hold hi] at hl
      cases hl
    · rw [hlog]
      exact h.balance
  · -- The packet on its way.
    rw [Classical.not_imp] at hold
    obtain ⟨hi, hsome⟩ := hold
    obtain ⟨⟨w, phase⟩, hlast⟩ := Option.ne_none_iff_exists'.mp hsome
    obtain ⟨j, hj, hp⟩ := h.current w phase hlast
    have hji : j = i := by omega
    subst hji
    rw [ht] at hp
    obtain ⟨hstart, h1, h2, h3, h4, h5, h6, phase', hp', hlog⟩ := hp.exec hex
    have hbal := h.balance
    rw [hlast] at hbal
    have hstep : ∀ es, s₁.log = es ++ s.shared.log →
        (∀ e ∈ es, ∃ pkt ok, e = .sent (.packet j) pkt ok ∧
          ∃ data, pkt = .ofData ⟨s.shared.connID, "", data⟩ ∧
            data.length ≤ maxConnDataPacketSize) →
        sentBytes s₁.log =
          reportedBytes s.shared.log ++ stage.progress ++ unacked (some (w, phase')) →
        WriteInv ⟨s₁, Function.update s.threads (.packet j) (ops ++ rest)⟩ stage
          (some (w, phase')) := by
      intro es hlog hes hbytes
      refine h.packet (by simp [hlast]) (fun w' phase'' hl => ?_) h1 h2 h3 h4 h5 h6 hlt
        (fun hnone => absurd (hnone hi) hsome) (fun w' phase'' hl _ => ?_)
        (fun _ _ _ hne => absurd hi hne) es hlog hes hbytes
      · cases hl
        exact ⟨phase, hlast⟩
      · cases hl
        exact hp'
    refine ⟨hstart, some (w, phase'), ?_⟩
    rcases hlog with ⟨hlog, hph⟩ | ⟨ok, hlog, rfl, rfl⟩
    · refine hstep [] hlog (by simp) ?_
      rw [hlog, hbal]
      rcases hph with rfl | ⟨err, rfl, rfl⟩
      · rfl
      · rfl
    · refine hstep [_] hlog (fun e he => ?_) ?_
      · exact ⟨_, ok, List.mem_singleton.mp he, w.chunk, rfl, chunk_length w⟩
      · rw [hlog]
        cases ok with
        | false =>
            rw [sentBytes_cons, hbal]
            simp [unacked, Event.sentData]
        | true =>
            rw [sentBytes_cons, hbal]
            simp [unacked, Event.sentData, payload, ConnState.dataPacket, Packet.ofData,
              Packet.getData]

/-! ## Steps of the writer -/

theorem GaveUp.of_ready {s : ConnState} {w w' : Writing} (h : GaveUp s (.ready w') w)
    (stage : Stage) : GaveUp s stage w := by
  obtain ⟨h1, ⟨err, heq⟩ | h2⟩ := h
  · cases heq
  · exact ⟨h1, Or.inr h2⟩

/-- A step of the writer, which may have taken the result of its packet. -/
theorem WriteInv.write_step (h : WriteInv s stage last) {stage' : Stage} {last' : Last}
    (hw : Writes stage' (threads .writer))
    (hthreads : ∀ i, threads (.packet i) = s.threads (.packet i))
    (herrCh : ∀ i, (s₁.sends i).errCh = (s.shared.sends i).errCh)
    (hstarted : s₁.started = s.shared.started) (hconn : s₁.connID = s.shared.connID)
    (hclosed : s₁.closed = s.shared.closed) (hctx : s₁.ctxDone = s.shared.ctxDone)
    (hlast : last' = last ∨
      (last' = none ∧ ∀ w phase, last = some (w, phase) → phase ≠ .pending))
    (hknown : StageLast s₁ last' stage')
    (hbalance : sentBytes s₁.log = reportedBytes s₁.log ++ stage'.progress ++ unacked last')
    (htimed : .timedOut ∈ s₁.log → s₁.writeErr.isSome = true)
    (huntimed : stage'.untimed → .timedOut ∉ s₁.log)
    (hsent : ∀ i pkt ok, .sent (.packet i) pkt ok ∈ s₁.log →
      .sent (.packet i) pkt ok ∈ s.shared.log)
    (hjust : Pool.Each Event.WriteJustified s₁.log) : WriteInv ⟨s₁, threads⟩ stage' last' := by
  have hdata : ∀ w, s₁.dataPacket w = s.shared.dataPacket w := by
    intro w
    rw [ConnState.dataPacket, hconn]
    rfl
  refine ⟨hw, fun i hi => ?_, fun i hi hl => ?_, fun w phase hl => ?_, hknown, hbalance, ?_, htimed,
    huntimed, fun i pkt ok hs => ?_, hjust⟩
  · dsimp only at hi ⊢
    rw [hthreads, herrCh]
    exact h.future i (hstarted ▸ hi)
  · dsimp only at hi hl ⊢
    rw [hthreads, herrCh]
    rw [hstarted] at hi hl
    rcases hlast with rfl | ⟨rfl, hdone⟩
    · exact h.past i hi hl
    · -- The last packet, if there is one, has its result, too.
      cases hlast : last with
      | none => exact h.past i hi fun _ => hlast
      | some x =>
          obtain ⟨w, phase⟩ := x
          by_cases hi' : i + 1 = s.shared.started
          · obtain ⟨j, hj, hp⟩ := h.current w phase hlast
            have hji : j = i := by omega
            subst hji
            cases phase with
            | pending => exact absurd rfl (hdone w .pending hlast)
            | done err => exact ⟨_, err, hp⟩
          · exact h.past i hi fun hi'' => absurd hi'' hi'
  · rcases hlast with rfl | ⟨rfl, -⟩
    · obtain ⟨i, hi, hp⟩ := h.current w phase hl
      refine ⟨i, hstarted ▸ hi, ?_⟩
      dsimp only
      rw [hthreads, herrCh, hdata]
      exact hp
    · cases hl
  · dsimp only
    rw [hctx, hclosed]
    exact h.ctx
  · dsimp only
    rw [hconn]
    exact h.packets i pkt ok (hsent i pkt ok hs)

/-- A step of the writer that changes nothing but its place. -/
theorem WriteInv.move (h : WriteInv s stage last) {stage' : Stage}
    (hw : Writes stage' (threads .writer))
    (hthreads : ∀ i, threads (.packet i) = s.threads (.packet i))
    (hknown : StageLast s.shared last stage') (hprogress : stage'.progress = stage.progress)
    (huntimed : stage'.untimed → .timedOut ∉ s.shared.log) :
    WriteInv ⟨s.shared, threads⟩ stage' last := by
  refine h.write_step hw hthreads (fun _ => rfl) rfl rfl rfl rfl (Or.inl rfl) hknown ?_ h.timed
    huntimed (fun _ _ _ hs => hs) h.justified
  rw [hprogress]
  exact h.balance

/-- The next packet carries the next bytes. -/
theorem take_chunk (w : Writing) :
    w.b.take (w.n + w.chunk.length) = w.b.take w.n ++ w.chunk := by
  rw [List.take_add, Writing.chunk, List.length_take]
  congr 1
  rw [List.take_eq_take_iff]
  omega

/-- The writer takes the result of its packet. -/
theorem WriteInv.select_done {i : Nat} {w : Writing} (h : WriteInv s (.flying i w) last)
    {err : Option ConnError}
    (herr : (s.shared.sends i).errCh = some err) : last = some (w, .done err) := by
  obtain ⟨hi, phase, hl⟩ := h.known
  obtain ⟨j, hj, hp⟩ := h.current w phase hl
  have hji : j = i := by omega
  subst hji
  rw [herr] at hp
  generalize s.threads (.packet j) = l at hp
  cases hp
  exact hl

theorem WriteInv.exec_select {i : Nat} {w : Writing} {d : Option Time} {g : Nat}
    (h : WriteInv s (.flying i w) last)
    (hex : exec s.shared .writer c (.select i d g w) = some (s₁, ops, start))
    (hw : threads .writer = ops) (hthreads : ∀ j, threads (.packet j) = s.threads (.packet j)) :
    start = none ∧ ∃ stage' last', WriteInv ⟨s₁, threads⟩ stage' last' := by
  have huntimed := h.untimed trivial
  simp only [exec] at hex
  obtain ⟨ops', hsel, heq⟩ := Option.map_eq_some_iff.mp hex
  cases heq
  refine ⟨rfl, ?_⟩
  unfold ConnState.select packetDone at hsel
  split at hsel
  · split at hsel
    · cases hsel
    · next herr =>
        -- The packet was sent.
        cases hsel
        have hlast := h.select_done herr
        have hbal := h.balance
        rw [hlast] at hbal
        refine ⟨.ready { w with n := w.n + w.chunk.length }, none,
          h.write_step (by rw [hw]; exact .cancelled) hthreads (fun _ => rfl) rfl rfl rfl rfl
            (Or.inr ⟨rfl, fun w' phase hl => ?_⟩) (fun w' phase hl => by cases hl) ?_ h.timed
            (fun _ => huntimed) (fun _ _ _ hs => hs) h.justified⟩
        · rw [hlast] at hl
          cases hl
          simp
        · rw [hbal]
          simp [Stage.progress, unacked, take_chunk]
    · next err herr =>
        cases hsel
        have hlast := h.select_done herr
        have hbal := h.balance
        rw [hlast] at hbal
        refine ⟨.leaving w (some (if s.shared.ctxDone then .errClosed else err)), none,
          h.write_step (by rw [hw]; exact .giveUp) hthreads (fun _ => rfl) rfl rfl rfl rfl
            (Or.inr ⟨rfl, fun w' phase hl => ?_⟩) (fun w' phase hl => by cases hl) hbal h.timed
            (fun hu => by cases hu.2) (fun _ _ _ hs => hs) h.justified⟩
        rw [hlast] at hl
        cases hl
        simp
  · split at hsel
    · next hctx =>
        cases hsel
        refine ⟨.leaving w (some .errClosed), last,
          h.move (by rw [hw]; exact .giveUp) hthreads (fun w' phase hl => ?_) rfl
            (fun hu => by cases hu.2)⟩
        obtain ⟨-, phase', hl'⟩ := h.known
        rw [hl'] at hl
        cases hl
        exact ⟨Or.inl (h.ctx hctx), Or.inl ⟨_, rfl⟩⟩
    · cases hsel
  · split at hsel
    · cases hsel
      exact ⟨.flying i w, last, h.move (by rw [hw]; exact .setWriteErr) hthreads h.known rfl
        fun _ => huntimed⟩
    · cases hsel
  · split at hsel
    · cases hsel
      exact ⟨.flying i w, last, h.move (by rw [hw]; exact .loadDeadline) hthreads h.known rfl
        fun _ => huntimed⟩
    · cases hsel

/-- `writePacket` starts the goroutine of its packet. -/
theorem WriteInv.startSend {w : Writing} (h : WriteInv s (.checked w) last)
    (hw : threads .writer = [.loadDeadline s.shared.started w])
    (hnew : threads (.packet s.shared.started) =
      [.sendContext (.packet s.shared.started) (s.shared.dataPacket w) (.packet s.shared.started)])
    (hthreads : ∀ j, j ≠ s.shared.started → threads (.packet j) = s.threads (.packet j)) :
    WriteInv ⟨{ s.shared with started := s.shared.started + 1 }.record
      (.sendStarted s.shared.started), threads⟩ (.flying s.shared.started w)
      (some (w, .pending)) := by
  have hlast : last = none := h.known
  have huntimed := h.untimed trivial
  have hbal := h.balance
  rw [hlast] at hbal
  refine ⟨by dsimp only; rw [hw]; exact .loadDeadline, fun i hi => ?_, fun i hi hl => ?_,
    fun w' phase hl => ?_, ⟨rfl, .pending, rfl⟩, ?_, h.ctx, fun ht => ?_, fun _ ht => ?_,
    fun i pkt ok hs => ?_, huntimed, h.justified⟩
  · dsimp only [ConnState.record_started, ConnState.record_sends] at hi ⊢
    have hi' : s.shared.started + 1 ≤ i := hi
    rw [hthreads i (by omega)]
    exact h.future i (by omega)
  · have hi' : i < s.shared.started + 1 := hi
    have hne : i ≠ s.shared.started := by
      rintro rfl
      cases hl rfl
    dsimp only
    rw [hthreads i hne]
    exact h.past i (by omega) fun _ => hlast
  · cases hl
    refine ⟨s.shared.started, rfl, ?_⟩
    dsimp only
    rw [hnew, ConnState.record_sends, (h.future _ (Nat.le_refl _)).2]
    exact .sendContext
  · simpa [Event.sentData, Event.reportedData, Stage.progress, unacked] using hbal
  · exact absurd (by simpa using ht) huntimed
  · exact absurd (by simpa using ht) huntimed
  · exact h.packets i pkt ok (by simpa using hs)

/-- `writePacket` checks the connection. -/
theorem WriteInv.exec_writePacket {w : Writing} (h : WriteInv s (.ready w) last)
    (hn : w.n < w.b.length)
    (hex : exec s.shared .writer c (.writePacket w) = some (s₁, ops, start))
    (hw : threads .writer = ops)
    (hnone : start = none → ∀ j, threads (.packet j) = s.threads (.packet j)) :
    ∃ stage' last', WriteInv ⟨s₁, threads⟩ stage' last' := by
  have hleave : ∀ err, threads .writer = [.writeReturn w (some err)] → start = none →
      WriteInv ⟨s.shared, threads⟩ (.leaving w (some err)) last := fun err hw hs =>
    h.move (by rw [hw]; exact .writeReturn) (hnone hs)
      (fun w' phase hl => (h.known w' phase hl).of_ready _) rfl (fun hu => by cases hu.2)
  simp only [exec] at hex
  split at hex
  · cases hex
    exact ⟨_, last, hleave _ hw rfl⟩
  · next hopen =>
      split at hex
      · cases hex
        exact ⟨_, last, hleave _ hw rfl⟩
      · next herr =>
          split at hex
          · cases hex
            exact ⟨_, last, hleave _ hw rfl⟩
          · cases hex
            refine ⟨.checked w, last, h.move (by rw [hw]; exact .startSend hn) (hnone rfl) ?_
              rfl (fun _ ht => ?_)⟩
            · cases hlast : last with
              | none => rfl
              | some x =>
                  rcases (h.known x.1 x.2 hlast).1 with hc | hc
                  · exact absurd hc hopen
                  · rw [herr] at hc
                    cases hc
            · have := h.timed ht
              rw [herr] at this
              cases this

/-- The `Write` gives up on its packet. -/
theorem WriteInv.exec_setWriteErr {i : Nat} {w : Writing} (h : WriteInv s (.flying i w) last)
    (hex : exec s.shared .writer c (.setWriteErr i w) = some (s₁, ops, start))
    (hw : threads .writer = ops)
    (hnone : start = none → ∀ j, threads (.packet j) = s.threads (.packet j)) :
    ∃ stage' last', WriteInv ⟨s₁, threads⟩ stage' last' := by
  simp only [exec] at hex
  cases hex
  refine ⟨.leaving w (some .deadlineExceeded), last,
    h.write_step (by rw [hw]; exact .giveUp) (hnone rfl) (fun _ => rfl) rfl rfl rfl rfl
      (Or.inl rfl) (fun w' phase hl => ?_) ?_ (fun _ => rfl) (fun hu => by cases hu.2)
      (fun i pkt ok hs => by simpa using hs) ⟨trivial, h.justified⟩⟩
  · obtain ⟨-, phase', hl'⟩ := h.known
    rw [hl'] at hl
    cases hl
    exact ⟨Or.inr rfl, Or.inl ⟨_, rfl⟩⟩
  · simpa [Event.sentData, Event.reportedData, Stage.progress] using h.balance

theorem WriteInv.exec_writeReturn {w : Writing} {err : Option ConnError}
    (h : WriteInv s (.leaving w err) last)
    (hex : exec s.shared .writer c (.writeReturn w err) = some (s₁, ops, start))
    (hw : threads .writer = ops)
    (hnone : start = none → ∀ j, threads (.packet j) = s.threads (.packet j)) :
    ∃ stage' last', WriteInv ⟨s₁, threads⟩ stage' last' := by
  simp only [exec] at hex
  cases hex
  refine ⟨.idle, last,
    h.write_step (by rw [hw]; exact .idle) (hnone rfl) (fun _ => rfl) rfl rfl rfl rfl
      (Or.inl rfl) (fun w' phase hl => ?_) ?_ (fun ht => h.timed (by simpa using ht))
      (fun hu => hu.elim) (fun i pkt ok hs => by simpa using hs) ⟨?_, h.justified⟩⟩
  · obtain ⟨h1, ⟨err', heq⟩ | ⟨err', hin⟩⟩ := h.known w' phase hl
    · cases heq
      exact ⟨h1, Or.inr ⟨err', List.mem_cons_self⟩⟩
    · exact ⟨h1, Or.inr ⟨err', List.mem_cons_of_mem _ hin⟩⟩
  · have hbal := h.balance
    simpa [Event.sentData, Event.reportedData, Stage.progress] using hbal
  · intro htimed hb herr
    subst herr
    exact h.untimed ⟨hb, rfl⟩ htimed

theorem WriteInv.exec_writer (h : WriteInv s stage last) (ht : s.threads .writer = op :: rest)
    (hex : exec s.shared .writer c op = some (s₁, ops, start))
    (hw : threads .writer = ops ++ rest)
    (hthreads : ∀ j, (∀ ops', start ≠ some (.packet j, ops')) →
      threads (.packet j) = s.threads (.packet j))
    (hstart : ∀ j ops', start = some (.packet j, ops') →
      threads (.packet j) = s.threads (.packet j) ++ ops') :
    ∃ stage' last', WriteInv ⟨s₁, threads⟩ stage' last' := by
  have hwriter := h.writer
  rw [ht] at hwriter
  have hnone : start = none → ∀ j, threads (.packet j) = s.threads (.packet j) := by
    rintro rfl j
    exact hthreads j (fun _ h => by cases h)
  cases hwriter with
  | write =>
      simp only [exec] at hex
      split at hex <;> cases hex
      · next w hn =>
          exact ⟨.ready w, last, h.move (by rw [hw]; exact .writePacket hn) (hnone rfl) h.known rfl
            h.untimed⟩
      · next w hn =>
          refine ⟨.leaving w none, last, h.move (by rw [hw]; exact .writeReturn) (hnone rfl)
            (fun w' phase hl => (h.known w' phase hl).of_ready _) rfl (fun hu => h.untimed ?_)⟩
          have : 0 < w.b.length := List.length_pos_iff.mpr hu.1
          change 0 < w.n
          omega
  | cancelled =>
      next i w =>
        simp only [exec] at hex
        cases hex
        refine ⟨.ready w, last, h.write_step (by rw [hw]; exact .write) (hnone rfl)
          (fun j => ?_) rfl
          rfl rfl rfl (Or.inl rfl) h.known h.balance h.timed h.untimed (fun _ _ _ hs => hs)
          h.justified⟩
        rw [ConnState.setSend_sends]
        by_cases hj : j = i
        · subst hj
          rw [Function.update_self]
        · rw [Function.update_of_ne hj]
  | writePacket hn => exact h.exec_writePacket hn hex (by rwa [List.append_nil] at hw) hnone
  | startSend hn =>
      next w =>
        simp only [exec] at hex
        cases hex
        have hfree := (h.future s.shared.started (Nat.le_refl _)).1
        refine ⟨_, _, h.startSend hw ?_ fun j hj => hthreads j fun ops' heq => ?_⟩
        · rw [hstart _ _ rfl, hfree]
          rfl
        · cases heq
          exact hj rfl
  | loadDeadline =>
      next i w =>
        simp only [exec] at hex
        cases hex
        exact ⟨.flying i w, last, h.move (by rw [hw]; exact .select) (hnone rfl) h.known rfl
          fun _ => h.untimed trivial⟩
  | select =>
      rw [List.append_nil] at hw
      have hstart' : start = none := by
        simp only [exec] at hex
        obtain ⟨x, -, heq⟩ := Option.map_eq_some_iff.mp hex
        cases heq
        rfl
      exact (h.exec_select hex hw (hnone hstart')).2
  | setWriteErr => exact h.exec_setWriteErr hex (by rwa [List.append_nil] at hw) hnone
  | giveUp =>
      next i w err =>
        simp only [exec] at hex
        cases hex
        refine ⟨.leaving w (some err), last,
          h.write_step (by rw [hw]; exact .writeReturn) (hnone rfl) (fun j => ?_) rfl rfl rfl rfl
            (Or.inl rfl) h.known h.balance h.timed h.untimed (fun _ _ _ hs => hs) h.justified⟩
        rw [ConnState.setSend_sends]
        by_cases hj : j = i
        · subst hj
          rw [Function.update_self]
        · rw [Function.update_of_ne hj]
  | writeReturn => exact h.exec_writeReturn hex (by rwa [List.append_nil] at hw) hnone

end Steps

/-! ## Runs -/

/-- Only `Close` cancels, and it has closed the connection by then. -/
theorem exec_closed {s s₁ : ConnState} {t : Tid} {c : Choice} {op : Op} {ops : List Op}
    {start : Option (Tid × List Op)} (hex : exec s t c op = some (s₁, ops, start)) :
    (s.closed = true → s₁.closed = true) ∧ (s₁.ctxDone = true → s.ctxDone = true ∨ op = .cancel) ∧
      (.cancel ∈ ops → s₁.closed = true) ∧ ∀ t' ops', start = some (t', ops') → .cancel ∉ ops' := by
  cases op with
  | read n =>
      have hspec := readLoop_spec s n s.buffer s.rdata s.now c.elapsed
      simp only [exec] at hex
      generalize s.readLoop n s.rdata s.buffer s.now c.elapsed = r at hex hspec
      obtain ⟨s', result⟩ := r
      obtain ⟨⟨⟨now, hframe⟩, -, -⟩, -, -⟩ := hspec
      dsimp only at hframe
      cases result with
      | none =>
          cases hex
          rw [hframe]
          exact ⟨id, Or.inl, by simp, fun _ _ h => by cases h⟩
      | some result =>
          cases hex
          rw [hframe]
          exact ⟨id, Or.inl, by simp, fun _ _ h => by cases h⟩
  | select i deadline changed w =>
      simp only [exec] at hex
      obtain ⟨ops', hsel, heq⟩ := Option.map_eq_some_iff.mp hex
      cases heq
      refine ⟨id, Or.inl, fun hin => ?_, fun _ _ h => by cases h⟩
      unfold ConnState.select packetDone at hsel
      repeat' split at hsel
      all_goals cases hsel
      all_goals simp at hin
  | setWriteErr i w =>
      simp only [exec] at hex
      cases hex
      exact ⟨id, Or.inl, by simp [packetDone], fun _ _ h => by cases h⟩
  | queueSend pkt =>
      simp only [exec] at hex
      cases hex
      refine ⟨id, Or.inl, by simp, fun t' ops' h => ?_⟩
      split at h <;> cases h
      simp
  | startSend w =>
      simp only [exec] at hex
      cases hex
      refine ⟨id, Or.inl, by simp, fun t' ops' h => ?_⟩
      cases h
      simp
  | cancel =>
      simp only [exec] at hex
      cases hex
      refine ⟨id, fun _ => Or.inr rfl, fun hin => ?_, fun _ _ h => by cases h⟩
      split at hin <;> simp at hin
  | closeLocked =>
      simp only [exec] at hex
      cases hex
      exact ⟨fun _ => rfl, Or.inl, fun _ => rfl, fun _ _ h => by cases h⟩
  | handleClose errMsg =>
      simp only [exec] at hex
      split at hex <;> cases hex
      · exact ⟨id, Or.inl, by simp, fun _ _ h => by cases h⟩
      · exact ⟨fun _ => rfl, Or.inl, by simp, fun _ _ h => by cases h⟩
  | _ =>
      simp only [exec] at hex
      repeat' split at hex
      all_goals cases hex
      all_goals exact ⟨id, Or.inl, by simp, fun _ _ h => by cases h⟩

section Runs

variable {connID : ConnectID} {size : Nat} {okExec : ConnState → Tid → Choice → Op → Prop}
  {okArrive : ConnState → ConnAction → Prop} {s : System.State ConnState Tid Op}

theorem serverConn_cancel
    (h : Reach serverConn.step (System.Allowed okExec okArrive) (newServerConn connID size) s) :
    (s.shared.ctxDone = true → s.shared.closed = true) ∧
      ∀ t, .cancel ∈ s.threads t → s.shared.closed = true := by
  have hinv := System.invariant (fun s : ConnState => s.ctxDone = true → s.closed = true)
    (fun s _ o => o = .cancel → s.closed = true) ?_ ?_ ?_ ?_ h
  · exact ⟨hinv.1, fun t ho => hinv.2 t _ ho rfl⟩
  · exact fun hc => nomatch hc
  · exact fun t o ho => nomatch ho
  · intro s a s₁ start _ hG _ harr
    have hclosed : s₁.ctxDone = s.shared.ctxDone ∧ s₁.closed = s.shared.closed ∧
        ∀ t ops, start = some (t, ops) → .cancel ∉ ops := by
      change arrive s.shared a = some (s₁, start) at harr
      cases a <;> simp only [arrive] at harr <;> repeat' split at harr
      all_goals cases harr
      all_goals exact ⟨rfl, rfl, by simp⟩
    refine ⟨by rw [hclosed.1, hclosed.2.1]; exact hG, fun _ _ h => by rw [hclosed.2.1]; exact h, ?_⟩
    cases start with
    | none => trivial
    | some st =>
        rintro o ho rfl
        exact absurd ho (hclosed.2.2 _ _ rfl)
  · intro s t c o rest s₁ ops start _ hG _ hP _ hex
    obtain ⟨h1, h2, h3, h4⟩ := exec_closed hex
    refine ⟨fun hc => ?_, fun _ _ h he => h1 (h he), fun o' ho' he => h3 (he ▸ ho'), ?_⟩
    · rcases h2 hc with hc | hc
      · exact h1 (hG hc)
      · exact h1 (hP hc)
    · cases start with
      | none => trivial
      | some st =>
          rintro o' ho' rfl
          exact absurd ho' (h4 _ _ rfl)

theorem serverConn_write
    (h : Reach serverConn.step (System.Allowed okExec okArrive) (newServerConn connID size) s) :
    ∃ stage last, WriteInv s stage last := by
  refine System.invariant_state (fun s => ∃ stage last, WriteInv s stage last) ?_ ?_ ?_ h
  · refine ⟨.idle, none, .idle, fun _ _ => ⟨rfl, rfl⟩, ?_, ?_, ?_, rfl, ?_, ?_, ?_, ?_, trivial⟩
    · exact fun i hi => absurd hi (Nat.not_lt_zero i)
    · exact fun _ _ h => nomatch h
    · exact fun _ _ h => nomatch h
    · exact fun h => nomatch h
    · exact fun h => nomatch h
    · exact fun h => h.elim
    · exact fun _ _ _ h => nomatch h
  · rintro s t c o rest s₁ ops start hr ⟨stage, last, hinv⟩ _ ht _ hex
    change exec s.shared t c o = some (s₁, ops, start) at hex
    have hop := serverConn_of hr (by rw [ht]; exact List.mem_cons_self)
    obtain ⟨-, hst⟩ := exec_of hop hex
    by_cases hw : t = .writer
    · subst hw
      refine hinv.exec_writer ht hex ?_ (fun j hj => ?_) (fun j ops' hs => ?_)
      · rw [Pool.spawn_of_ne fun ops' hs => ?_, Function.update_self]
        rcases (hst _ _ hs).2 with ⟨hq, -⟩ | ⟨hq, -⟩ <;> cases hq
      · rw [Pool.spawn_of_ne hj, Function.update_of_ne (by simp)]
      · subst hs
        rw [Pool.spawn, Function.update_self, Function.update_of_ne (by simp)]
    · by_cases hp : ∃ i, t = .packet i
      · obtain ⟨i, rfl⟩ := hp
        obtain ⟨rfl, last', hinv'⟩ := hinv.exec_packet ht hex
        exact ⟨stage, last', hinv'⟩
      · have hp : ∀ i, t ≠ .packet i := fun i hi => hp ⟨i, hi⟩
        obtain ⟨es, h1, h2, h3, h4, h5, h6, h7, h8⟩ := exec_aside hop hw hp hex
        refine ⟨stage, last, hinv.aside es h1 h2 h3 h4 h5 h6 h7 (fun hc => ?_) ?_ (fun i => ?_)⟩
        · rcases h8 hc with hc | hc
          · exact h7 (hinv.ctx hc)
          · subst hc
            exact h7 ((serverConn_cancel hr).2 t (by rw [ht]; exact List.mem_cons_self))
        · rw [Pool.spawn_of_ne fun ops' hs => ?_, Function.update_of_ne (Ne.symm hw)]
          rcases (hst _ _ hs).2 with ⟨hq, -⟩ | ⟨hq, -⟩ <;> cases hq
        · rw [Pool.spawn_of_ne fun ops' hs => ?_, Function.update_of_ne (Ne.symm (hp i))]
          rcases (hst _ _ hs).2 with ⟨hq, -⟩ | ⟨-, hq⟩
          · cases hq
          · exact hw hq
  · rintro s a s₁ start threads _ ⟨stage, last, hinv⟩ _ _ harr hthreads
    change arrive s.shared a = some (s₁, start) at harr
    -- All but a new `Write` leaves the writer where it is.
    have hquiet : (∀ b, a ≠ .write b) → ∃ stage last, WriteInv ⟨s₁, threads⟩ stage last := by
      intro ha
      have hframe : s₁.log = s.shared.log ∧ s₁.sends = s.shared.sends ∧
          s₁.started = s.shared.started ∧ s₁.connID = s.shared.connID ∧
          s₁.writeErr = s.shared.writeErr ∧ s₁.closed = s.shared.closed ∧
          s₁.ctxDone = s.shared.ctxDone ∧ ∀ ops, start ≠ some (.writer, ops) := by
        cases a <;> simp only [arrive] at harr <;> repeat' split at harr
        all_goals first
          | exact absurd rfl (ha _)
          | cases harr
            done
          | cases harr
            exact ⟨rfl, rfl, rfl, rfl, rfl, rfl, rfl, by simp⟩
      obtain ⟨h1, h2, h3, h4, h5, h6, h7, h8⟩ := hframe
      have hsame : ∀ x, (∀ ops, start ≠ some (x, ops)) → threads x = s.threads x := by
        intro x hx
        cases start with
        | none => rw [show threads = s.threads from hthreads]
        | some st =>
            rw [hthreads.2, Function.update_of_ne]
            rintro rfl
            exact hx st.2 rfl
      refine ⟨stage, last, hinv.aside [] h1 (by simp) h2 h3 h4 h5 (by rw [h6]; exact id)
        (by rw [h6, h7]; exact hinv.ctx) (hsame _ h8) fun i => hsame _ fun ops hs => ?_⟩
      exact (arrive_of harr hs).2.2 i rfl
    cases a with
    | write b =>
        simp only [arrive] at harr
        cases harr
        obtain ⟨hidle, rfl⟩ := hthreads
        have hwriter := hinv.writer
        rw [hidle] at hwriter
        cases hwriter
        refine ⟨.ready ⟨b, 0⟩, last, hinv.move ?_ (fun i => Function.update_of_ne (by simp) _ _)
          (fun w phase hl => ?_) (by simp [Stage.progress]) (fun hu => ?_)⟩
        · rw [Function.update_self]
          exact .write
        · obtain ⟨h1, ⟨err, heq⟩ | h2⟩ := hinv.known w phase hl
          · cases heq
          · exact ⟨h1, Or.inr h2⟩
        · exact absurd hu (Nat.lt_irrefl 0)
    | _ => exact hquiet (by simp)

end Runs

end Konnectivity.Server.Conn
