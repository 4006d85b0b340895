import Konnectivity.Proofs.ConnGapFree
import Konnectivity.Proofs.QueueRefines

/-!
# What a connection sends goes through its backend

`Server/Conn.lean` has a `SendContext`, a send lock and a queue of its own, as
far as one connection notices them. Here they are shown to be those of
`Server/DialSend.lean`: whatever the goroutines of a connection do, a backend
without dials does as well, and the two agree on the lock, on what is queued
and on which contexts are done. With `Proofs/QueueRefines.lean` the queue a
connection puts its `CLOSE_REQ` into is the send queue.

One operation of a connection is often several of the backend, which takes
`queueMu` and calls the stream in two steps. A context that ends at the
connection is a context of its packets that ends at the backend, one event for
each packet that has been started.
-/

namespace Konnectivity.DialSend

open Lib

/-! ## A call of `SendContext` -/

section Calls

variable {timeout : Int} {t : Tid} {b : Backend} {n : Nat} {ctx : Ctx} {p : Packet} {e : CtxErr}

/-- `SendContext` finds its context done. -/
theorem run_refused (he : b.ctxErr ctx = some e) :
    (backend timeout).Runs t b [.sendContext ctx p] { b with plain := b.plain + 1 } [] := by
  refine .step {} [.check ⟨.plain b.plain, ctx, p⟩] rfl
    (.step {} [.ret ⟨.plain b.plain, ctx, p⟩ (some (.ctx e))] ?_ (.step {} [] rfl .refl))
  have he' : { b with plain := b.plain + 1 }.ctxErr ctx = some e := by
    rw [← he]
    cases ctx <;> rfl
  simp only [backend, exec, Op.dial?, Op.call?, execSend, he']

theorem run_entered (he : b.ctxErr ctx = none) :
    (backend timeout).Runs t b [.sendContext ctx p] { b with plain := b.plain + 1 }
      [.lockSend ⟨.plain b.plain, ctx, p⟩] := by
  refine .step {} [.check ⟨.plain b.plain, ctx, p⟩] rfl
    (.step {} [.lockSend ⟨.plain b.plain, ctx, p⟩] ?_ .refl)
  have he' : { b with plain := b.plain + 1 }.ctxErr ctx = none := by
    rw [← he]
    cases ctx <;> rfl
  simp only [backend, exec, Op.dial?, Op.call?, execSend, he']

/-- It gives up on the lock. -/
theorem run_gaveUp (he : b.ctxErr ctx = some e) :
    (backend timeout).Runs t b [.lockSend ⟨.plain n, ctx, p⟩] b [] := by
  refine .step { done := true } [.ret ⟨.plain n, ctx, p⟩ (some (.ctx e))] ?_
    (.step {} [] rfl .refl)
  simp [backend, exec, Op.dial?, Op.call?, execSend, he]

theorem run_locked (hfree : b.sendLock = false) :
    (backend timeout).Runs t b [.lockSend ⟨.plain n, ctx, p⟩]
      ({ b with sendLock := true }.setCall (.plain n) fun l =>
        { l with locked := l.locked ++ [b.ctxErr ctx] }) [.recheck ⟨.plain n, ctx, p⟩] := by
  refine .step {} [.recheck ⟨.plain n, ctx, p⟩] ?_ .refl
  simp [backend, exec, Op.dial?, Op.call?, execSend, hfree]

theorem run_recheck_done (he : b.ctxErr ctx = some e) :
    (backend timeout).Runs t b [.recheck ⟨.plain n, ctx, p⟩] b
      [.unlockSend ⟨.plain n, ctx, p⟩ (some (.ctx e))] := by
  refine .step {} [.unlockSend ⟨.plain n, ctx, p⟩ (some (.ctx e))] ?_ .refl
  simp [backend, exec, Op.dial?, Op.call?, execSend, he]

theorem run_recheck (he : b.ctxErr ctx = none) :
    (backend timeout).Runs t b [.recheck ⟨.plain n, ctx, p⟩] b
      [.streamSend ⟨.plain n, ctx, p⟩] := by
  refine .step {} [.streamSend ⟨.plain n, ctx, p⟩] ?_ .refl
  simp [backend, exec, Op.dial?, Op.call?, execSend, he]

/-- The stream's `Send` starts and ends. -/
theorem run_stream (timeout : Int) (t : Tid) (b : Backend) (c : Call) (err : Option StreamErr) :
    ∃ b₁, (backend timeout).Runs t b [.streamSend c] b₁ [.unlockSend c (err.map .stream)] ∧
      b₁.sendLock = b.sendLock ∧ b₁.queueMu = b.queueMu ∧ b₁.queued = b.queued ∧
      b₁.queueSending = b.queueSending ∧ b₁.err = b.err ∧ b₁.otherErr = b.otherErr ∧
      b₁.started = b.started := by
  refine ⟨_, .step {} [.streamSent c] rfl
    (.step { sent := err } [.unlockSend c (err.map .stream)] rfl .refl), ?_⟩
  exact ⟨rfl, rfl, rfl, rfl, rfl, rfl, rfl⟩

theorem run_unlock {err : Option Err} (hlock : b.sendLock = true) :
    (backend timeout).Runs t b [.unlockSend ⟨.plain n, ctx, p⟩ err]
      { b with sendLock := false } [] := by
  refine .step {} [.ret ⟨.plain n, ctx, p⟩ err] ?_ (.step {} [] rfl .refl)
  simp [backend, exec, Op.dial?, Op.call?, execSend, hlock]

/-! ## The queue -/

theorem exec_queueLock (hmu : b.queueMu = false) :
    (backend timeout).exec b t {} .queueLock = some ({ b with queueMu := true }, [], none) := by
  simp [backend, exec, Op.dial?, Op.call?, execQueue, hmu]

theorem run_append (hmu : b.queueMu = false) (hsending : b.queueSending = true) :
    (backend timeout).Runs t b [.queueLock, .queueAppend p]
      { b with queueMu := false, queued := b.queued ++ [p] } [] := by
  refine .step {} [] (exec_queueLock hmu) (.step {} [] ?_ .refl)
  simp [backend, exec, Op.dial?, Op.call?, execQueue, hsending]

/-- `queueSend` starts a `sendQueued`. -/
theorem reach_append {d : System.State Backend Tid Op} {rest : List Op}
    (ht : d.threads t = .queueLock :: .queueAppend p :: rest) (hmu : d.shared.queueMu = false)
    (hsending : d.shared.queueSending = false) :
    Reach (backend timeout).step System.unrestricted d
      ⟨{ d.shared with queueMu := false, queued := d.shared.queued ++ [p], queueSending := true,
                       started := d.shared.started + 1 },
        Pool.spawn (Function.update d.threads t rest)
          (some (.queue d.shared.started, sendQueued))⟩ := by
  have happend : (backend timeout).exec { d.shared with queueMu := true } t {} (.queueAppend p) =
      some ({ d.shared with queueMu := false, queued := d.shared.queued ++ [p],
                            queueSending := true, started := d.shared.started + 1 }, [],
        some (.queue d.shared.started, sendQueued)) := by
    simp [backend, exec, Op.dial?, Op.call?, execQueue, hsending]
  have hsecond := System.step_run (s := ⟨{ d.shared with queueMu := true },
    Function.update d.threads t (.queueAppend p :: rest)⟩) rfl (Function.update_self ..) happend
  rw [Function.update_idem] at hsecond
  exact (System.reach_step (System.step_run rfl ht (exec_queueLock hmu))).trans
    (System.reach_step hsecond)

theorem run_pop_nil (hmu : b.queueMu = false) (hqueued : b.queued = []) :
    (backend timeout).Runs t b sendQueued { b with queueMu := false, queueSending := false }
      [] := by
  refine .step {} [] (exec_queueLock hmu) (.step {} [] ?_ .refl)
  simp [backend, exec, Op.dial?, Op.call?, execQueue, hqueued]

theorem run_pop {queued : List Packet} (hmu : b.queueMu = false)
    (hqueued : b.queued = p :: queued) :
    (backend timeout).Runs t b sendQueued { b with queueMu := false, queued := queued }
      (.sendContext .backend p :: sendQueued) := by
  refine .step {} [] (exec_queueLock hmu)
    (.step {} (.sendContext .backend p :: sendQueued) ?_ .refl)
  simp [backend, exec, Op.dial?, Op.call?, execQueue, hqueued]

end Calls

end Konnectivity.DialSend

namespace Konnectivity.Server.Conn

open Lib

/-! ## The sends of a connection -/

/-- The goroutine of the backend that a goroutine of the connection is. -/
def Tid.place (started : Nat) : Tid → DialSend.Tid
  | .queue => .queue (started - 1)
  | .writer => .other 0
  | .packet i => .other (5 * i + 1)
  | .reader k => .other (5 * k + 2)
  | .agent k => .other (5 * k + 3)
  | .closer k => .other (5 * k + 4)
  | .other k => .other (5 * k + 5)

theorem Tid.place_inj {n : Nat} {t t' : Tid} (h : t.place n = t'.place n) : t = t' := by
  cases t <;> cases t' <;> simp only [place, DialSend.Tid.other.injEq, reduceCtorEq] at h <;>
    first | rfl | omega | (congr; omega)

def SendCtx.ctx : SendCtx → DialSend.Ctx
  | .packet i => .other i
  | .backend => .backend

/-- The operations that are nothing to the backend. A `SendContext` that has
let go of the lock is over. -/
def Op.aside : Op → Bool
  | .sendContext _ _ _ | .lockSend _ _ _ | .sendLocked _ _ _ | .streamSend _ _ => false
  | .unlockSend | .queueSend _ | .sendQueued => false
  | _ => true

/-- What an operation is to the backend. -/
inductive Follow : Op → List DialSend.Op → Prop
  | sendContext (ctx : SendCtx) (pkt : Packet) (k : AfterSend) :
      Follow (.sendContext ctx pkt k) [.sendContext ctx.ctx pkt]
  | lockSend (ctx : SendCtx) (pkt : Packet) (k : AfterSend) (n : Nat) :
      Follow (.lockSend ctx pkt k) [.lockSend ⟨.plain n, ctx.ctx, pkt⟩]
  | sendLocked (ctx : SendCtx) (pkt : Packet) (k : AfterSend) (n : Nat) :
      Follow (.sendLocked ctx pkt k) [.recheck ⟨.plain n, ctx.ctx, pkt⟩]
  | streamSend (pkt : Packet) (k : AfterSend) (n : Nat) (ctx : DialSend.Ctx) :
      Follow (.streamSend pkt k) [.streamSend ⟨.plain n, ctx, pkt⟩]
  | unlockSend (pkt : Packet) (n : Nat) (ctx : DialSend.Ctx) (err : Option DialSend.Err) :
      Follow .unlockSend [.unlockSend ⟨.plain n, ctx, pkt⟩ err]
  | queueSend (pkt : Packet) : Follow (.queueSend pkt) [.queueLock, .queueAppend pkt]
  | sendQueued : Follow .sendQueued DialSend.sendQueued
  | aside {o : Op} (h : o.aside = true) : Follow o []

inductive Follows : List Op → List DialSend.Op → Prop
  | nil : Follows [] []
  | cons {o : Op} {ops : List Op} {l l' : List DialSend.Op} (ho : Follow o l)
      (h : Follows ops l') : Follows (o :: ops) (l ++ l')

theorem Follows.append {ops ops' : List Op} {l l' : List DialSend.Op} (h : Follows ops l)
    (h' : Follows ops' l') : Follows (ops ++ ops') (l ++ l') := by
  induction h with
  | nil => exact h'
  | cons ho _ ih =>
      rw [List.cons_append, List.append_assoc]
      exact .cons ho ih

theorem Follows.single {o : Op} {l : List DialSend.Op} (h : Follow o l) : Follows [o] l := by
  rw [← List.append_nil l]
  exact .cons h .nil

theorem Follows.aside {ops : List Op} (h : ∀ o ∈ ops, o.aside = true) : Follows ops [] := by
  induction ops with
  | nil => exact .nil
  | cons o ops ih =>
      exact .cons (.aside (h o List.mem_cons_self)) (ih fun o ho => h o (List.mem_cons_of_mem _ ho))

/-- The backend as the connection knows it. -/
structure Shares (s : ConnState) (b : DialSend.Backend) : Prop where
  lock : b.sendLock = s.sendLock.isSome
  queueMu : b.queueMu = false
  queued : b.queued = s.queued
  queueSending : b.queueSending = s.queueSending
  backend : b.err.isSome = s.backendDone
  -- The context of a packet that has not been started is not done yet.
  packets : ∀ i, (b.otherErr i).isSome = (decide (i < s.started) && s.ctxErr (.packet i))

structure Refines (s : System.State ConnState Tid Op)
    (d : System.State DialSend.Backend DialSend.Tid DialSend.Op) : Prop where
  shared : Shares s.shared d.shared
  threads : ∀ t, Follows (s.threads t) (d.threads (t.place d.shared.started))
  fresh : ∀ n, d.shared.started ≤ n → d.threads (.queue n) = []
  counted : s.threads .queue = [] ∨ 0 < d.shared.started

section Refines

variable {s s₁ : ConnState} {b : DialSend.Backend} {t : Tid} {c : Choice} {op : Op}
  {ops : List Op} {start : Option (Tid × List Op)} {l : List DialSend.Op}

/-- What the sends of a connection depend on is left alone, but for contexts
that end and sends that start. -/
structure SameSends (s s₁ : ConnState) : Prop where
  lock : s₁.sendLock = s.sendLock
  queued : s₁.queued = s.queued
  queueSending : s₁.queueSending = s.queueSending
  backend : s₁.backendDone = s.backendDone
  started : s.started ≤ s₁.started
  packets : ∀ i, s.ctxErr (.packet i) = true → s₁.ctxErr (.packet i) = true

theorem packetDone_aside (i : Nat) (w : Writing) (err : Option ConnError) :
    ∀ o ∈ packetDone i w err, o.aside = true := by
  cases err <;> simp [packetDone, Op.aside]

theorem select_aside {i : Nat} {deadline : Option Time} {changed : Nat} {w : Writing} {cs : Case}
    (h : s.select i deadline changed w cs = some ops) : ∀ o ∈ ops, o.aside = true := by
  cases cs <;> simp only [ConnState.select] at h <;> split at h <;> cases h <;>
    first | exact packetDone_aside _ _ _ | simp [Op.aside]

theorem SameSends.setSend {i : Nat} {x : PacketSend}
    (hx : (s.sends i).cancelled = true → x.cancelled = true) : SameSends s (s.setSend i x) := by
  refine ⟨rfl, rfl, rfl, rfl, Nat.le_refl _, fun j hj => ?_⟩
  simp only [ConnState.ctxErr, ConnState.setSend_ctxDone, ConnState.setSend_sends,
    Bool.or_eq_true] at hj ⊢
  by_cases hji : j = i
  · subst hji
    rw [Function.update_self]
    exact hj.imp_right hx
  · rw [Function.update_of_ne hji]
    exact hj

/-- What an operation does that is nothing to the backend. -/
theorem exec_backend_aside (hop : op.aside = true)
    (hex : exec s t c op = some (s₁, ops, start)) :
    SameSends s s₁ ∧ (op = .closeRemove ∨ ∀ o ∈ ops, o.aside = true) ∧
      (start = none ∨ ∃ w, op = .startSend w) := by
  cases op with
  | read n =>
      have hspec := readLoop_spec s n s.buffer s.rdata s.now c.elapsed
      simp only [exec] at hex
      generalize s.readLoop n s.rdata s.buffer s.now c.elapsed = r at hex hspec
      obtain ⟨s', result⟩ := r
      obtain ⟨⟨⟨now, hframe⟩, -, -⟩, -, -⟩ := hspec
      dsimp only at hframe
      cases result <;> cases hex <;> rw [hframe] <;>
        exact ⟨⟨rfl, rfl, rfl, rfl, Nat.le_refl _, fun _ => id⟩, Or.inr (by simp [Op.aside]),
          Or.inl rfl⟩
  | select i deadline changed w =>
      simp only [exec] at hex
      obtain ⟨ops', hselect, heq⟩ := Option.map_eq_some_iff.mp hex
      cases heq
      exact ⟨⟨rfl, rfl, rfl, rfl, Nat.le_refl _, fun _ => id⟩, Or.inr (select_aside hselect),
        Or.inl rfl⟩
  | sendDone k err =>
      cases k with
      | nobody =>
          cases hex
          exact ⟨⟨rfl, rfl, rfl, rfl, Nat.le_refl _, fun _ => id⟩, Or.inr (List.forall_mem_nil _),
            Or.inl rfl⟩
      | packet i =>
          cases hex
          exact ⟨.setSend id, Or.inr (List.forall_mem_nil _), Or.inl rfl⟩
  | cancel =>
      cases hex
      refine ⟨⟨rfl, rfl, rfl, rfl, Nat.le_refl _, fun i _ => rfl⟩, Or.inr ?_, Or.inl rfl⟩
      split <;> simp [Op.aside]
  | cancelSend i =>
      cases hex
      exact ⟨.setSend fun _ => rfl, Or.inr (List.forall_mem_nil _), Or.inl rfl⟩
  | startSend w =>
      cases hex
      exact ⟨⟨rfl, rfl, rfl, rfl, Nat.le_succ _, fun _ => id⟩, Or.inr (by simp [Op.aside]),
        Or.inr ⟨w, rfl⟩⟩
  | closeRemove =>
      simp only [exec] at hex
      split at hex <;> cases hex <;>
        exact ⟨⟨rfl, rfl, rfl, rfl, Nat.le_refl _, fun _ => id⟩, Or.inl rfl, Or.inl rfl⟩
  | setWriteErr i w =>
      cases hex
      exact ⟨⟨rfl, rfl, rfl, rfl, Nat.le_refl _, fun _ => id⟩, Or.inr (packetDone_aside _ _ _),
        Or.inl rfl⟩
  | _ =>
      simp only [exec] at hex
      repeat' split at hex
      all_goals cases hex
      all_goals first
        | (cases hop; done)
        | exact ⟨⟨rfl, rfl, rfl, rfl, Nat.le_refl _, fun _ => id⟩, Or.inr (by simp [Op.aside]),
            Or.inl rfl⟩

/-- Contexts of packets end. -/
theorem reach_otherDone (timeout : Int) (b : DialSend.Backend) (is : List Nat)
    (threads : DialSend.Tid → List DialSend.Op) :
    ∃ f, Reach (DialSend.backend timeout).step System.unrestricted ⟨b, threads⟩
        ⟨{ b with otherErr := f }, threads⟩ ∧
      ∀ i, (f i).isSome = (decide (i ∈ is) || (b.otherErr i).isSome) := by
  induction is with
  | nil => exact ⟨b.otherErr, .refl, fun i => rfl⟩
  | cons j is ih =>
      obtain ⟨f, hreach, hf⟩ := ih
      have hstep : (DialSend.backend timeout).step ⟨{ b with otherErr := f }, threads⟩
          (.arrive (.otherDone j .canceled)) = some ⟨{ b with
            otherErr := Function.update f j (some ((f j).getD .canceled)) }, threads⟩ :=
        System.step_arrive rfl rfl rfl
      refine ⟨_, hreach.trans (System.reach_step hstep), fun i => ?_⟩
      by_cases hi : i = j
      · subst hi
        simp
      · simp [hi, hf]

/-- The backend learns of the contexts that have ended. -/
theorem Shares.learn (timeout : Int) (h : Shares s b) (hsame : SameSends s s₁)
    (threads : DialSend.Tid → List DialSend.Op) :
    ∃ b₁, Reach (DialSend.backend timeout).step System.unrestricted ⟨b, threads⟩ ⟨b₁, threads⟩ ∧
      Shares s₁ b₁ ∧ b₁.started = b.started := by
  obtain ⟨f, hreach, hf⟩ := reach_otherDone timeout b
    ((List.range s₁.started).filter fun i => s₁.ctxErr (.packet i)) threads
  refine ⟨_, hreach, ⟨?_, h.queueMu, ?_, ?_, ?_, fun i => ?_⟩, rfl⟩
  · rw [hsame.lock]
    exact h.lock
  · rw [hsame.queued]
    exact h.queued
  · rw [hsame.queueSending]
    exact h.queueSending
  · rw [hsame.backend]
    exact h.backend
  · rw [hf, h.packets, Bool.eq_iff_iff]
    have hpackets := hsame.packets i
    have hstarted := hsame.started
    simp only [List.mem_filter, List.mem_range, Bool.or_eq_true, Bool.and_eq_true,
      decide_eq_true_eq]
    constructor
    · rintro (hi | ⟨hi, hctx⟩)
      · exact hi
      · exact ⟨by omega, hpackets hctx⟩
    · exact Or.inl

/-- The operations of a `SendContext`. -/
theorem exec_sends (timeout : Int) (x : DialSend.Tid) {ctx : SendCtx} {k : AfterSend}
    (h : Shares s b) (hop : op.ofSend ctx k = true)
    (haside : op.aside = false) (hl : Follow op l) (hctx : (b.ctxErr ctx.ctx).isSome = s.ctxErr ctx)
    (hlock : op = .unlockSend → s.sendLock.isSome = true)
    (hex : exec s t c op = some (s₁, ops, start)) :
    ∃ b₁ l₁, (DialSend.backend timeout).Runs x b l b₁ l₁ ∧ Follows ops l₁ ∧ Shares s₁ b₁ ∧
      b₁.started = b.started := by
  have hdone {k : AfterSend} {err : Option ConnError} : Follows [.sendDone k err] [] :=
    .single (.aside rfl)
  have hunlock {p : Packet} {n : Nat} {ctx : DialSend.Ctx} {e : Option DialSend.Err}
      {k : AfterSend} {err : Option ConnError} :
      Follows [.unlockSend, .sendDone k err] [.unlockSend ⟨.plain n, ctx, p⟩ e] :=
    .cons (.unlockSend p n ctx e) hdone
  cases op with
  | sendContext ctx' pkt k' =>
      simp only [Op.ofSend, decide_eq_true_eq] at hop
      obtain ⟨rfl, rfl⟩ := hop
      obtain _ | _ | _ | _ | _ | _ | _ | hnone := hl
      · simp only [exec] at hex
        split at hex <;> cases hex
        · next he =>
            obtain ⟨e, he⟩ := Option.isSome_iff_exists.mp (hctx.trans he)
            exact ⟨_, _, DialSend.run_refused he, hdone,
              ⟨h.lock, h.queueMu, h.queued, h.queueSending, h.backend, h.packets⟩, rfl⟩
        · next he =>
            have he : b.ctxErr ctx'.ctx = none := by simpa [he] using hctx
            exact ⟨_, _, DialSend.run_entered he, .single (.lockSend ctx' pkt k' _),
              ⟨h.lock, h.queueMu, h.queued, h.queueSending, h.backend, h.packets⟩, rfl⟩
      · cases hnone
  | lockSend ctx' pkt k' =>
      simp only [Op.ofSend, decide_eq_true_eq] at hop
      obtain ⟨rfl, rfl⟩ := hop
      obtain _ | ⟨_, _, _, n⟩ | _ | _ | _ | _ | _ | hnone := hl
      · simp only [exec] at hex
        repeat' split at hex
        all_goals cases hex
        · next hfree =>
            have hfree : b.sendLock = false := by rw [h.lock]; simpa using hfree
            exact ⟨_, _, DialSend.run_locked hfree, .single (.sendLocked ctx' pkt k' n),
              ⟨rfl, h.queueMu, h.queued, h.queueSending, h.backend, h.packets⟩, rfl⟩
        · next he =>
            obtain ⟨e, he⟩ := Option.isSome_iff_exists.mp (hctx.trans he)
            exact ⟨_, _, DialSend.run_gaveUp he, hdone, h, rfl⟩
      · cases hnone
  | sendLocked ctx' pkt k' =>
      simp only [Op.ofSend, decide_eq_true_eq] at hop
      obtain ⟨rfl, rfl⟩ := hop
      obtain _ | _ | ⟨_, _, _, n⟩ | _ | _ | _ | _ | hnone := hl
      · simp only [exec] at hex
        split at hex <;> cases hex
        · next he =>
            obtain ⟨e, he⟩ := Option.isSome_iff_exists.mp (hctx.trans he)
            exact ⟨_, _, DialSend.run_recheck_done he, hunlock, h, rfl⟩
        · next he =>
            have he : b.ctxErr ctx'.ctx = none := by simpa [he] using hctx
            exact ⟨_, _, DialSend.run_recheck he, .single (.streamSend pkt k' n _), h, rfl⟩
      · cases hnone
  | streamSend pkt k' =>
      obtain _ | _ | _ | ⟨_, _, n, ctx'⟩ | _ | _ | _ | hnone := hl
      · cases hex
        obtain ⟨b₁, hrun, h1, h2, h3, h4, h5, h6, h7⟩ :=
          DialSend.run_stream timeout x b ⟨.plain n, ctx', pkt⟩
            (if c.ok then none else some ⟨"", false⟩)
        refine ⟨b₁, _, hrun, hunlock, ⟨?_, ?_, ?_, ?_, ?_, ?_⟩, h7⟩
        · rw [h1]; exact h.lock
        · rw [h2]; exact h.queueMu
        · rw [h3]; exact h.queued
        · rw [h4]; exact h.queueSending
        · rw [h5]; exact h.backend
        · rw [h6]; exact h.packets
      · cases hnone
  | unlockSend =>
      obtain _ | _ | _ | _ | _ | _ | _ | hnone := hl
      · cases hex
        exact ⟨_, _, DialSend.run_unlock (h.lock.trans (hlock rfl)), .nil,
          ⟨rfl, h.queueMu, h.queued, h.queueSending, h.backend, h.packets⟩, rfl⟩
      · cases hnone
  | sendDone k' err => cases haside
  | _ => cases hop

end Refines

section Steps

variable {s : System.State ConnState Tid Op} {s₁ : ConnState}
  {d : System.State DialSend.Backend DialSend.Tid DialSend.Op} {b₁ : DialSend.Backend} {t : Tid}
  {op : Op} {ops rest : List Op} {l l₁ rest' : List DialSend.Op}

theorem Follows.eq_nil (h : Follows [] l) : l = [] := by
  cases h
  rfl

theorem Tid.place_queue {n m : Nat} (h : t.place n = .queue m) : t = .queue ∧ m = n - 1 := by
  cases t <;> cases h
  exact ⟨rfl, rfl⟩

theorem Follow.eq_nil (h : Follow op l) (hop : op.aside = true) : l = [] := by
  cases h <;> first | rfl | cases hop

theorem Refines.at_head (h : Refines s d) (ht : s.threads t = op :: rest) :
    ∃ l rest', Follow op l ∧ Follows rest rest' ∧
      d.threads (t.place d.shared.started) = l ++ rest' := by
  have hat := h.threads t
  rw [ht] at hat
  generalize d.threads (t.place d.shared.started) = l₀ at hat
  cases hat with
  | cons ho hrest => exact ⟨_, _, ho, hrest, rfl⟩

/-- The operations of one goroutine are replaced, at the backend as well. -/
theorem Refines.update (h : Refines s d) (hq : t = .queue → 0 < d.shared.started)
    (hops : Follows ops l) (hshared : Shares s₁ b₁) (hstarted : b₁.started = d.shared.started) :
    Refines ⟨s₁, Function.update s.threads t ops⟩
      ⟨b₁, Function.update d.threads (t.place d.shared.started) l⟩ := by
  refine ⟨hshared, fun y => ?_, fun n hn => ?_, ?_⟩
  · dsimp only
    rw [hstarted]
    by_cases hy : y = t
    · subst hy
      rw [Function.update_self, Function.update_self]
      exact hops
    · rw [Function.update_of_ne hy, Function.update_of_ne fun heq => hy (Tid.place_inj heq)]
      exact h.threads y
  · dsimp only at hn ⊢
    rw [hstarted] at hn
    rw [Function.update_of_ne fun heq => ?_]
    · exact h.fresh n hn
    · obtain ⟨ht, hm⟩ := Tid.place_queue heq.symm
      have := hq ht
      omega
  · dsimp only
    rw [hstarted]
    by_cases ht : t = .queue
    · exact Or.inr (hq ht)
    · rw [Function.update_of_ne (Ne.symm ht)]
      exact h.counted

/-- A goroutine goes on. -/
theorem Refines.push (h : Refines s d) (ht : s.threads t = op :: rest) (hrest : Follows rest rest')
    (hops : Follows ops l₁) (hshared : Shares s₁ b₁) (hstarted : b₁.started = d.shared.started) :
    Refines ⟨s₁, Function.update s.threads t (ops ++ rest)⟩
      ⟨b₁, Function.update d.threads (t.place d.shared.started) (l₁ ++ rest')⟩ := by
  refine h.update ?_ (hops.append hrest) hshared hstarted
  rintro rfl
  refine h.counted.resolve_left fun hnil => ?_
  rw [hnil] at ht
  cases ht

/-- The backend does not notice. -/
theorem Refines.idle (h : Refines s d) (ht : s.threads t = op :: rest) (hop : op.aside = true)
    (hops : ∀ o ∈ ops, o.aside = true) (hshared : Shares s₁ b₁)
    (hstarted : b₁.started = d.shared.started) :
    Refines ⟨s₁, Function.update s.threads t (ops ++ rest)⟩ ⟨b₁, d.threads⟩ := by
  obtain ⟨l, rest', hl, hrest, hd⟩ := h.at_head ht
  obtain rfl := hl.eq_nil hop
  have hpush := h.push ht hrest (.aside hops) hshared hstarted
  rw [List.nil_append] at hd hpush
  rw [← hd, Function.update_eq_self] at hpush
  exact hpush

/-- An idle goroutine is started. -/
theorem Refines.start (h : Refines s d) (ht : s.threads t = []) (hq : t ≠ .queue)
    (hops : Follows ops l) (hshared : Shares s₁ b₁) (hstarted : b₁.started = d.shared.started) :
    d.threads (t.place d.shared.started) = [] ∧ Refines ⟨s₁, Function.update s.threads t ops⟩
      ⟨b₁, Function.update d.threads (t.place d.shared.started) l⟩ :=
  ⟨(ht ▸ h.threads t).eq_nil,
    h.update (fun heq => absurd heq hq) hops hshared hstarted⟩

theorem Refines.start_aside (h : Refines s d) (ht : s.threads t = []) (hq : t ≠ .queue)
    (hops : ∀ o ∈ ops, o.aside = true) :
    Refines ⟨s.shared, Function.update s.threads t ops⟩ d := by
  obtain ⟨hfree, hstart⟩ := h.start ht hq (.aside hops) h.shared rfl
  rw [← hfree, Function.update_eq_self] at hstart
  exact hstart

/-- A `sendQueued` is started. -/
theorem Refines.spawn (h : Refines s d) (ht : s.threads .queue = []) (hshared : Shares s.shared b₁)
    (hstarted : b₁.started = d.shared.started + 1) :
    Refines ⟨s.shared, Pool.spawn s.threads (some (.queue, [.sendQueued]))⟩
      ⟨b₁, Pool.spawn d.threads (some (.queue d.shared.started, DialSend.sendQueued))⟩ := by
  refine ⟨hshared, fun y => ?_, fun n hn => ?_, Or.inr ?_⟩
  · dsimp only [Pool.spawn]
    rw [hstarted]
    by_cases hy : y = .queue
    · subst hy
      rw [show Tid.place (d.shared.started + 1) .queue = .queue d.shared.started from rfl,
        Function.update_self, Function.update_self, ht, h.fresh _ (Nat.le_refl _)]
      exact .single .sendQueued
    · have hplace : y.place (d.shared.started + 1) = y.place d.shared.started := by
        cases y <;> first | rfl | exact absurd rfl hy
      rw [hplace, Function.update_of_ne hy,
        Function.update_of_ne fun heq => hy (Tid.place_queue heq).1]
      exact h.threads y
  · dsimp only [Pool.spawn] at hn ⊢
    rw [hstarted] at hn
    rw [Function.update_of_ne (by simp; omega)]
    exact h.fresh n (by omega)
  · dsimp only
    omega

end Steps

/-! ## One `sendQueued` at a time -/

/-- `sendQueued` runs only while `queueSending` is set, and `Close` does one
thing after the other. -/
structure Senders (s : System.State ConnState Tid Op) : Prop where
  idle : s.shared.queueSending = false → s.threads .queue = []
  last : Op.sendQueued ∉ (s.threads .queue).dropLast
  closers : ∀ k, (s.threads (.closer k)).length ≤ 1

section Senders

variable {s s₁ : ConnState} {t : Tid} {c : Choice} {op : Op} {ops : List Op}
  {start : Option (Tid × List Op)}

/-- Only `sendQueued` ends the sending, and goes on with itself. -/
theorem exec_queueSending (hop : op ≠ .sendQueued) (hex : exec s t c op = some (s₁, ops, start)) :
    .sendQueued ∉ ops ∧
      (s₁.queueSending = false →
        s.queueSending = false ∧ ∀ l, start ≠ some (.queue, l)) ∧
      ∀ l, start = some (.queue, l) → l = [.sendQueued] ∧ s.queueSending = false := by
  cases op with
  | sendQueued => exact absurd rfl hop
  | queueSend pkt =>
      cases hex
      refine ⟨List.not_mem_nil, nofun, fun l hl => ?_⟩
      split at hl <;> cases hl
      next hsending => exact ⟨rfl, by simpa using hsending⟩
  | sendContext ctx pkt k | lockSend ctx pkt k | sendLocked ctx pkt k | streamSend pkt k |
      unlockSend =>
      simp only [exec] at hex
      repeat' split at hex
      all_goals cases hex
      all_goals exact ⟨by simp, fun h => ⟨h, nofun⟩, nofun⟩
  | closeRemove =>
      simp only [exec] at hex
      split at hex <;> cases hex <;> exact ⟨by simp, fun h => ⟨h, nofun⟩, nofun⟩
  | startSend w =>
      cases hex
      exact ⟨by simp, fun h => ⟨h, by simp⟩, by simp⟩
  | _ =>
      obtain ⟨hsame, hops, hstart⟩ := exec_backend_aside rfl hex
      obtain rfl := hstart.resolve_right (by simp)
      rw [hsame.queueSending]
      refine ⟨fun hmem => ?_, fun h => ⟨h, nofun⟩, nofun⟩
      exact nomatch (hops.resolve_left (by simp)) _ hmem

theorem exec_closer {k : Nat} (hop : op.of (.closer k) = true)
    (hex : exec s t c op = some (s₁, ops, start)) : ops.length ≤ 1 := by
  cases op with
  | close | closeLocked | cancel | closeRemove | queueSend pkt =>
      simp only [exec] at hex
      repeat' split at hex
      all_goals cases hex
      all_goals first | exact Nat.le_refl 1 | exact Nat.zero_le 1
  | _ => cases hop

theorem arrive_senders {a : ConnAction} (harr : arrive s a = some (s₁, start)) :
    s₁.queueSending = s.queueSending ∧ ∀ t' l, start = some (t', l) →
      t' ≠ .queue ∧ ∀ k, t' = .closer k → l.length ≤ 1 := by
  cases a with
  | queue k pkt =>
      simp only [arrive] at harr
      split at harr <;> cases harr
      exact ⟨rfl, by simp⟩
  | close k =>
      cases harr
      exact ⟨rfl, by simp⟩
  | _ =>
      cases harr
      exact ⟨rfl, by simp⟩

end Senders

section Runs

variable {connID : ConnectID} {size : Nat} {okExec : ConnState → Tid → Choice → Op → Prop}
  {okArrive : ConnState → ConnAction → Prop} {s : System.State ConnState Tid Op}

/-- `sendQueued` is performed. -/
theorem Senders.sendQueued (h : Senders s) {c : Choice} {rest ops : List Op} {s₁ : ConnState}
    {start : Option (Tid × List Op)} (ht : s.threads .queue = .sendQueued :: rest)
    (hex : exec s.shared .queue c .sendQueued = some (s₁, ops, start)) :
    Senders ⟨s₁, Pool.spawn (Function.update s.threads .queue (ops ++ rest)) start⟩ := by
  obtain rfl : rest = [] := by
    cases rest with
    | nil => rfl
    | cons o rest =>
        have hlast := h.last
        rw [ht] at hlast
        exact absurd List.mem_cons_self hlast
  simp only [exec] at hex
  split at hex <;> cases hex
  · exact ⟨fun _ => by simp [Pool.spawn], by simp [Pool.spawn],
      fun k => by simpa [Pool.spawn] using h.closers k⟩
  · refine ⟨fun hsending => ?_, by simp [Pool.spawn],
      fun k => by simpa [Pool.spawn] using h.closers k⟩
    rw [h.idle hsending] at ht
    cases ht

/-- Another operation is performed. -/
theorem Senders.exec (h : Senders s) {t : Tid} {c : Choice} {op : Op} {rest ops : List Op}
    {s₁ : ConnState}
    {start : Option (Tid × List Op)} (ht : s.threads t = op :: rest) (hof : op.of t = true)
    (hop : op ≠ .sendQueued) (hex : Conn.exec s.shared t c op = some (s₁, ops, start)) :
    Senders ⟨s₁, Pool.spawn (Function.update s.threads t (ops ++ rest)) start⟩ := by
  obtain ⟨hops, hended, hstart⟩ := exec_queueSending hop hex
  have hne : s.shared.queueSending = false → t ≠ .queue := by
    rintro hsending rfl
    rw [h.idle hsending] at ht
    cases ht
  refine ⟨fun hsending => ?_, ?_, fun k => ?_⟩
  · obtain ⟨hbefore, hnone⟩ := hended hsending
    dsimp only
    rw [Pool.spawn_of_ne hnone, Function.update_of_ne (hne hbefore).symm]
    exact h.idle hbefore
  · by_cases hq : ∃ l, start = some (.queue, l)
    · obtain ⟨l, rfl⟩ := hq
      obtain ⟨rfl, hbefore⟩ := hstart l rfl
      dsimp only [Pool.spawn]
      rw [Function.update_self, Function.update_of_ne (hne hbefore).symm, h.idle hbefore]
      exact List.not_mem_nil
    · dsimp only
      rw [Pool.spawn_of_ne fun l hl => hq ⟨l, hl⟩]
      by_cases htq : t = .queue
      · subst htq
        have hlast := h.last
        rw [ht] at hlast
        rw [Function.update_self]
        cases rest with
        | nil =>
            rw [List.append_nil]
            exact fun hmem => hops (List.dropLast_subset _ hmem)
        | cons o rest =>
            rw [List.dropLast_append_of_ne_nil (by simp), List.mem_append, not_or]
            exact ⟨hops, fun hmem => hlast (List.mem_cons_of_mem _ hmem)⟩
      · rw [Function.update_of_ne (Ne.symm htq)]
        exact h.last
  · dsimp only
    rw [Pool.spawn_of_ne fun l hl => ?_]
    · by_cases hk : t = .closer k
      · subst hk
        have hlen := h.closers k
        have hnew := exec_closer hof hex
        rw [ht, List.length_cons] at hlen
        rw [Function.update_self, List.length_append]
        omega
      · rw [Function.update_of_ne (Ne.symm hk)]
        exact h.closers k
    · rcases exec_started hex hl with ⟨hq, -⟩ | ⟨w, -, hq, -⟩ <;> cases hq

theorem serverConn_senders
    (h : Reach serverConn.step (System.Allowed okExec okArrive) (newServerConn connID size) s) :
    Senders s := by
  refine System.invariant_state Senders ?_ ?_ ?_ h
  · exact ⟨fun _ => rfl, List.not_mem_nil, fun _ => Nat.zero_le 1⟩
  · intro s t c o rest s₁ ops start hr hinv _ ht _ hex
    have hop := serverConn_of hr (by rw [ht]; exact List.mem_cons_self)
    by_cases hsq : o = .sendQueued
    · subst hsq
      obtain rfl : t = .queue := by cases t <;> first | rfl | cases hop
      exact hinv.sendQueued (c := c) ht hex
    · exact hinv.exec ht hop hsq hex
  · intro s a s₁ start threads _ hinv _ _ harr hthreads
    obtain ⟨hsending, hstart⟩ := arrive_senders harr
    cases start with
    | none =>
        obtain rfl : threads = s.threads := hthreads
        exact ⟨fun hs => hinv.idle (hsending ▸ hs), hinv.last, hinv.closers⟩
    | some st =>
        obtain ⟨hidle, rfl⟩ := hthreads
        obtain ⟨hq, hlen⟩ := hstart _ _ rfl
        refine ⟨fun hs => ?_, ?_, fun k => ?_⟩
        · dsimp only
          rw [Function.update_of_ne hq.symm]
          exact hinv.idle (hsending ▸ hs)
        · dsimp only
          rw [Function.update_of_ne hq.symm]
          exact hinv.last
        · dsimp only
          by_cases hk : Tid.closer k = st.1
          · rw [hk, Function.update_self]
            exact hlen k hk.symm
          · rw [Function.update_of_ne hk]
            exact hinv.closers k

end Runs

/-! ## Whole runs -/

section Simulation

variable {timeout : Int} {connID : ConnectID} {size : Nat}
  {okExec : ConnState → Tid → Choice → Op → Prop} {okArrive : ConnState → ConnAction → Prop}
  {s : System.State ConnState Tid Op} {s₁ : ConnState} {t : Tid} {c : Choice} {op : Op}
  {ops rest : List Op} {start : Option (Tid × List Op)}
  {d : System.State DialSend.Backend DialSend.Tid DialSend.Op}

/-- A step of `SendContext`. -/
theorem refines_send (h : Refines s d)
    (hr : Reach serverConn.step (System.Allowed okExec okArrive) (newServerConn connID size) s)
    (ht : s.threads t = op :: rest) {ctx : SendCtx} {k : AfterSend} (hop : op.ofSend ctx k = true)
    (haside : op.aside = false) (hctx : ctx = .backend ∨ ∃ i, ctx = .packet i ∧ t = .packet i)
    (hex : exec s.shared t c op = some (s₁, ops, start)) :
    ∃ d', Reach (DialSend.backend timeout).step System.unrestricted d d' ∧
      Refines ⟨s₁, Pool.spawn (Function.update s.threads t (ops ++ rest)) start⟩ d' := by
  obtain ⟨l, rest', hl, hrest, hd⟩ := h.at_head ht
  have herr : (d.shared.ctxErr ctx.ctx).isSome = s.shared.ctxErr ctx := by
    rcases hctx with rfl | ⟨i, rfl, rfl⟩
    · exact h.shared.backend
    · have hi : i < s.shared.started := by
        obtain ⟨stage, last, hwrite⟩ := serverConn_write hr
        refine Nat.lt_of_not_le fun hle => ?_
        rw [(hwrite.future i hle).1] at ht
        cases ht
      exact (h.shared.packets i).trans (by simp [hi])
  have hlock : op = .unlockSend → s.shared.sendLock.isSome = true := by
    rintro rfl
    rw [(serverConn_lock hr).holds t _ (by rw [ht]; exact List.mem_cons_self) rfl]
    rfl
  obtain ⟨b₁, l₁, hrun, hops, hshared, hstarted⟩ := exec_sends timeout
    (t.place d.shared.started) h.shared hop haside hl herr hlock hex
  obtain ⟨rfl, -⟩ := exec_ofSend ctx k hex hop
  exact ⟨_, hrun.reach (fun _ => rfl) hd, h.push ht hrest hops hshared hstarted⟩

/-- `queueSend`, which may start a `sendQueued`. -/
theorem refines_queueSend (h : Refines s d) (hsenders : Senders s) {pkt : Packet}
    (ht : s.threads t = .queueSend pkt :: rest) (hq : t ≠ .queue)
    (hex : exec s.shared t c (.queueSend pkt) = some (s₁, ops, start)) :
    ∃ d', Reach (DialSend.backend timeout).step System.unrestricted d d' ∧
      Refines ⟨s₁, Pool.spawn (Function.update s.threads t (ops ++ rest)) start⟩ d' := by
  obtain ⟨l, rest', hl, hrest, hd⟩ := h.at_head ht
  obtain _ | _ | _ | _ | _ | _ | _ | hnone := hl
  · cases hex
    split
    · next hsending =>
        have hd' := h.shared.queueSending.trans hsending
        exact ⟨_, (DialSend.run_append h.shared.queueMu hd').reach (fun _ => rfl) hd,
          h.push ht hrest .nil ⟨h.shared.lock, rfl, congrArg (· ++ [pkt]) h.shared.queued, hd',
            h.shared.backend, h.shared.packets⟩ rfl⟩
    · next hsending =>
        have hsending : s.shared.queueSending = false := by simpa using hsending
        -- the `sendQueued` is started after the packet is in the queue
        have hqueued : d.shared.queued ++ [pkt] = s.shared.queued ++ [pkt] := by
          rw [h.shared.queued]
        have hpush : Refines
            ⟨{ s.shared with queued := s.shared.queued ++ [pkt], queueSending := true },
              Function.update s.threads t rest⟩
            ⟨{ d.shared with queueMu := false, queued := d.shared.queued ++ [pkt],
                             queueSending := true },
              Function.update d.threads (t.place d.shared.started) rest'⟩ :=
          h.push ht hrest .nil
            ⟨h.shared.lock, rfl, hqueued, rfl, h.shared.backend, h.shared.packets⟩ rfl
        have hidle : Function.update s.threads t rest .queue = [] := by
          rw [Function.update_of_ne hq.symm]
          exact hsenders.idle hsending
        exact ⟨_, DialSend.reach_append hd h.shared.queueMu (h.shared.queueSending.trans hsending),
          hpush.spawn hidle
            ⟨h.shared.lock, rfl, hqueued, rfl, h.shared.backend, h.shared.packets⟩ rfl⟩
  · cases hnone

theorem refines_sendQueued (h : Refines s d)
    (ht : s.threads t = .sendQueued :: rest)
    (hex : exec s.shared t c .sendQueued = some (s₁, ops, start)) :
    ∃ d', Reach (DialSend.backend timeout).step System.unrestricted d d' ∧
      Refines ⟨s₁, Pool.spawn (Function.update s.threads t (ops ++ rest)) start⟩ d' := by
  obtain ⟨l, rest', hl, hrest, hd⟩ := h.at_head ht
  obtain _ | _ | _ | _ | _ | _ | _ | hnone := hl
  · simp only [exec] at hex
    split at hex <;> cases hex
    · next hqueued =>
        exact ⟨_, (DialSend.run_pop_nil h.shared.queueMu (h.shared.queued.trans hqueued)).reach
          (fun _ => rfl) hd, h.push ht hrest .nil ⟨h.shared.lock, rfl, h.shared.queued, rfl,
            h.shared.backend, h.shared.packets⟩ rfl⟩
    · next pkt queued hqueued =>
        exact ⟨_, (DialSend.run_pop h.shared.queueMu (h.shared.queued.trans hqueued)).reach
          (fun _ => rfl) hd, h.push ht hrest
          (.cons (.sendContext .backend pkt .nobody) (.single .sendQueued))
          ⟨h.shared.lock, rfl, rfl, h.shared.queueSending,
            h.shared.backend, h.shared.packets⟩ rfl⟩
  · cases hnone

/-- The goroutine of a packet is started. -/
theorem refines_startSend (h : Refines s d)
    (hr : Reach serverConn.step (System.Allowed okExec okArrive) (newServerConn connID size) s)
    {w : Writing} (ht : s.threads t = .startSend w :: rest)
    (hex : exec s.shared t c (.startSend w) = some (s₁, ops, start)) :
    ∃ d', Reach (DialSend.backend timeout).step System.unrestricted d d' ∧
      Refines ⟨s₁, Pool.spawn (Function.update s.threads t (ops ++ rest)) start⟩ d' := by
  obtain ⟨hsame, hops, -⟩ := exec_backend_aside rfl hex
  obtain ⟨b₁, hreach, hshared, hstarted⟩ := h.shared.learn timeout hsame d.threads
  have hgoes := h.idle ht rfl (hops.resolve_left nofun) hshared hstarted
  cases hex
  have hidle : Function.update s.threads t ([.loadDeadline s.shared.started w] ++ rest)
      (.packet s.shared.started) = [] := by
    obtain ⟨stage, last, hwrite⟩ := serverConn_write hr
    have hnil := (hwrite.future _ (Nat.le_refl _)).1
    rw [Function.update_of_ne fun heq => ?_]
    · exact hnil
    · rw [← heq, hnil] at ht
      cases ht
  obtain ⟨hfree, hstart⟩ := hgoes.start hidle nofun (.single (.sendContext _ _ _)) hshared rfl
  have hstep : (DialSend.backend timeout).step ⟨b₁, d.threads⟩
      (.arrive (.send (5 * s.shared.started + 1) (.other s.shared.started)
        (s.shared.dataPacket w))) =
      some ⟨b₁, Function.update d.threads ((Tid.packet s.shared.started).place b₁.started)
        [.sendContext (.other s.shared.started) (s.shared.dataPacket w)]⟩ :=
    System.step_arrive rfl rfl ⟨hfree, rfl⟩
  refine ⟨_, hreach.trans (System.reach_step hstep), ?_⟩
  dsimp only [Pool.spawn]
  rw [hidle]
  exact hstart

/-- `Close` comes to its `queueSend`. -/
theorem refines_closeRemove (h : Refines s d) (hsenders : Senders s)
    (ht : s.threads t = .closeRemove :: rest) (hop : Op.of t .closeRemove = true)
    (hex : exec s.shared t c .closeRemove = some (s₁, ops, start)) :
    ∃ d', Reach (DialSend.backend timeout).step System.unrestricted d d' ∧
      Refines ⟨s₁, Pool.spawn (Function.update s.threads t (ops ++ rest)) start⟩ d' := by
  obtain ⟨k, rfl⟩ : ∃ k, t = .closer k := by
    cases t <;> first | exact ⟨_, rfl⟩ | cases hop
  obtain rfl : rest = [] := by
    have hlen := hsenders.closers k
    rw [ht, List.length_cons] at hlen
    exact List.length_eq_zero_iff.mp (by omega)
  obtain ⟨hsame, -, -⟩ := exec_backend_aside rfl hex
  obtain ⟨b₁, hreach, hshared, hstarted⟩ := h.shared.learn timeout hsame d.threads
  have hgoes : Refines ⟨s₁, Function.update s.threads (.closer k) []⟩ ⟨b₁, d.threads⟩ :=
    h.idle ht rfl (List.forall_mem_nil _) hshared hstarted
  simp only [exec] at hex
  split at hex <;> cases hex
  · obtain ⟨hfree, hstart⟩ := hgoes.start (t := .closer k) (Function.update_self ..) nofun
      (.single (.queueSend (.newCloseRequest s.shared.connID))) hshared rfl
    have hstep : (DialSend.backend timeout).step ⟨b₁, d.threads⟩
        (.arrive (.queueSend (5 * k + 4) (.newCloseRequest s.shared.connID))) =
        some ⟨b₁, Function.update d.threads ((Tid.closer k).place b₁.started)
          [.queueLock, .queueAppend (.newCloseRequest s.shared.connID)]⟩ :=
      System.step_arrive rfl rfl ⟨hfree, rfl⟩
    refine ⟨_, hreach.trans (System.reach_step hstep), ?_⟩
    dsimp only at hstart
    rw [Function.update_idem] at hstart
    exact hstart
  · exact ⟨_, hreach, hgoes⟩

theorem refines_exec (h : Refines s d)
    (hr : Reach serverConn.step (System.Allowed okExec okArrive) (newServerConn connID size) s)
    (ht : s.threads t = op :: rest)
    (hex : exec s.shared t c op = some (s₁, ops, start)) :
    ∃ d', Reach (DialSend.backend timeout).step System.unrestricted d d' ∧
      Refines ⟨s₁, Pool.spawn (Function.update s.threads t (ops ++ rest)) start⟩ d' := by
  have hop := serverConn_of hr (by rw [ht]; exact List.mem_cons_self)
  have hsenders := serverConn_senders hr
  cases op with
  | startSend w => exact refines_startSend h hr ht hex
  | closeRemove => exact refines_closeRemove h hsenders ht hop hex
  | queueSend pkt => exact refines_queueSend h hsenders ht (by rintro rfl; cases hop) hex
  | sendQueued => exact refines_sendQueued h ht hex
  | sendContext ctx pkt k | lockSend ctx pkt k | sendLocked ctx pkt k | streamSend pkt k |
      unlockSend =>
      cases t with
      | packet i => exact refines_send (k := .packet i) h hr ht hop rfl (Or.inr ⟨i, rfl, rfl⟩) hex
      | queue | other k => exact refines_send (k := .nobody) h hr ht hop rfl (Or.inl rfl) hex
      | _ => cases hop
  | _ =>
      obtain ⟨hsame, hops, hstart⟩ := exec_backend_aside rfl hex
      obtain ⟨b₁, hreach, hshared, hstarted⟩ := h.shared.learn timeout hsame d.threads
      obtain rfl := hstart.resolve_right nofun
      exact ⟨_, hreach, h.idle ht rfl (hops.resolve_left nofun) hshared hstarted⟩

theorem refines_arrive {a : ConnAction} {threads : Tid → List Op} (h : Refines s d)
    (harr : arrive s.shared a = some (s₁, start))
    (hthreads : Pool.Arrived s.threads start threads) :
    ∃ d', Reach (DialSend.backend timeout).step System.unrestricted d d' ∧
      Refines ⟨s₁, threads⟩ d' := by
  cases a with
  | setReadDeadline x | setWriteDeadline x | tick x =>
      cases harr
      obtain rfl : threads = s.threads := hthreads
      exact ⟨d, .refl, ⟨h.shared.lock, h.shared.queueMu, h.shared.queued, h.shared.queueSending,
        h.shared.backend, h.shared.packets⟩, h.threads, h.fresh, h.counted⟩
  | backendEnd =>
      cases harr
      obtain rfl : threads = s.threads := hthreads
      have hstep : (DialSend.backend timeout).step d (.arrive (.backendDone .canceled)) =
          some ⟨{ d.shared with err := some (d.shared.err.getD .canceled) }, d.threads⟩ :=
        System.step_arrive rfl rfl rfl
      exact ⟨_, System.reach_step hstep, ⟨h.shared.lock, h.shared.queueMu, h.shared.queued,
        h.shared.queueSending, rfl, h.shared.packets⟩, h.threads, h.fresh, h.counted⟩
  | send k pkt =>
      cases harr
      obtain ⟨hidle, rfl⟩ := hthreads
      obtain ⟨hfree, hstart⟩ := h.start (t := .other k) hidle (by simp)
        (.single (.sendContext .backend pkt .nobody)) h.shared rfl
      have hstep : (DialSend.backend timeout).step d
          (.arrive (.send (5 * k + 5) .backend pkt)) = some ⟨d.shared,
            Function.update d.threads ((Tid.other k).place d.shared.started)
              [.sendContext .backend pkt]⟩ :=
        System.step_arrive rfl rfl ⟨hfree, rfl⟩
      exact ⟨_, System.reach_step hstep, hstart⟩
  | queue k pkt =>
      simp only [arrive] at harr
      split at harr <;> cases harr
      obtain ⟨hidle, rfl⟩ := hthreads
      obtain ⟨hfree, hstart⟩ := h.start (t := .other k) hidle (by simp) (.single (.queueSend pkt))
        h.shared rfl
      have hstep : (DialSend.backend timeout).step d
          (.arrive (.queueSend (5 * k + 5) pkt)) = some ⟨d.shared,
            Function.update d.threads ((Tid.other k).place d.shared.started)
              [.queueLock, .queueAppend pkt]⟩ :=
        System.step_arrive rfl rfl ⟨hfree, rfl⟩
      exact ⟨_, System.reach_step hstep, hstart⟩
  | _ =>
      cases harr
      obtain ⟨hidle, rfl⟩ := hthreads
      exact ⟨d, .refl, h.start_aside hidle (by simp) (by simp [Op.aside])⟩

/-- Everything a connection sends goes through `SendContext`, the send lock and
the queue of its backend as these are. -/
theorem conn_refines_backend (timeout : Int)
    (h : Reach serverConn.step (System.Allowed okExec okArrive) (newServerConn connID size) s) :
    ∃ d, Reach (DialSend.backend timeout).step System.unrestricted DialSend.init d ∧
      Refines s d := by
  refine System.simulation Refines ?_ ?_ ?_ h
  · exact ⟨⟨rfl, rfl, rfl, rfl, rfl, fun i => rfl⟩, fun _ => .nil, fun _ _ => rfl, Or.inl rfl⟩
  · intro s t c o rest s₁ ops start d hr href ht hex
    exact refines_exec href hr ht hex
  · intro s a s₁ start threads d _ href harr hthreads
    exact refines_arrive href harr hthreads

/-- Nothing stays in the queue of a connection's backend without a
`sendQueued` that is going to take it. -/
theorem conn_queue
    (h : Reach serverConn.step (System.Allowed okExec okArrive) (newServerConn connID size) s) :
    s.shared.queueSending = false → s.shared.queued = [] := by
  obtain ⟨d, hd, href⟩ := conn_refines_backend 0 h
  rw [← href.shared.queueSending, ← href.shared.queued]
  exact (SendQueue.backend_queue hd).2

end Simulation

end Konnectivity.Server.Conn
