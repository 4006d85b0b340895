import Konnectivity.Server.HttpConnect

/-!
# Who may write, send and close

The operations of an HTTP-CONNECT stream carry tokens: the send lock of the
frontend, the one run of `close`, the right to write to the socket of a queued
stream, and the place of the dispatcher. None is carried twice, so what an
operation knows of the socket or of the queue stays true until the operation
is performed.
-/

namespace Konnectivity.Server.HttpConnect

open Lib

/-! ## The log -/

/-- What the events of a kind say, oldest first. -/
def collect {α : Type} (f : Event → Option α) (log : List Event) : List α :=
  log.reverse.flatMap fun e => (f e).toList

@[simp]
theorem collect_cons {α : Type} (f : Event → Option α) (e : Event) (log : List Event) :
    collect f (e :: log) = collect f log ++ (f e).toList := by
  simp [collect]

def Event.passedPkt : Event → Option FrontendPacket
  | .passed _ pkt => some pkt
  | _ => none

def Event.deliveredPkt : Event → Option FrontendPacket
  | .passed .dispatch pkt => some pkt
  | _ => none

def Event.acceptedPkt : Event → Option FrontendPacket
  | .accepted pkt => some pkt
  | _ => none

def Event.dequeuedPkt : Event → Option FrontendPacket
  | .dequeued pkt => some pkt
  | _ => none

def Event.receivedPkt : Event → Option FrontendPacket
  | .received pkt => some pkt
  | _ => none

def Event.wroteBytes : Event → Option Bytes
  | .wrote b => some b
  | _ => none

/-- The packets passed to `Send`. -/
def passed (s : StreamState) : List FrontendPacket := collect Event.passedPkt s.log

/-- The packets the dispatcher passed. -/
def delivered (s : StreamState) : List FrontendPacket := collect Event.deliveredPkt s.log

/-- The packets `enqueueWrite` accepted. -/
def accepted (s : StreamState) : List FrontendPacket := collect Event.acceptedPkt s.log

def dequeued (s : StreamState) : List FrontendPacket := collect Event.dequeuedPkt s.log

/-- The packets received from the agent. -/
def received (s : StreamState) : List FrontendPacket := collect Event.receivedPkt s.log

/-- The bytes written to the socket. -/
def written (s : StreamState) : Bytes := (collect Event.wroteBytes s.log).flatten

/-! ## Tokens -/

inductive Token where
  | lock
  | once
  | socket
  | dispatcher
  deriving DecidableEq, Repr

def AfterSend.tokens : AfterSend → List Token
  | .nobody => []
  | _ => [.dispatcher]

def WriteCaller.tokens : WriteCaller → List Token
  | .handshake => [.lock, .dispatcher, .socket]
  | .sync k => .lock :: k.tokens
  | .queued => [.socket]

def CloseCaller.tokens : CloseCaller → List Token
  | .nobody | .writer => []
  | .send k => .lock :: k.tokens
  | .handshake => [.lock, .dispatcher]

@[grind =]
def Op.tokens : Op → List Token
  | .dispatch | .route _ | .dispatchExit | .removeEstablished => [.dispatcher]
  | .sendDialResponse => [.dispatcher, .socket]
  | .startWriter => [.lock, .dispatcher, .socket]
  | .closeConnected => [.lock, .dispatcher]
  | .send _ k => k.tokens
  | .streamSend _ k | .enqueueWrite _ k | .tryEnqueue _ k | .blockedEnqueue _ k | .unlock k =>
      .lock :: k.tokens
  | .connWrite _ caller => caller.tokens
  | .writerLoop | .writerSelect => [.socket]
  | .close caller => caller.tokens
  | .closeClosed caller | .connClose caller | .cancel caller | .onceDone caller =>
      .once :: caller.tokens
  | _ => []

structure StreamInv (s : StreamState) (H : Token → Prop) : Prop where
  lock : H .lock → s.sendLock.isSome = true
  once : H .once → s.onceEntered = true ∧ s.onceDone = false
  fresh : s.onceEntered = false → s.onceDone = false ∧ s.closed = false ∧ s.socketClosed = false
  done : s.onceDone = true → s.closed = true ∧ s.socketClosed = true
  socket : s.socketClosed = true ↔ .socketClosed ∈ s.log
  single : Pool.Each (fun e log => e = .socketClosed → .socketClosed ∉ log) s.log
  cap : s.writeCh.cap = s.queueSize

/-- What an operation knows of the lock and of `close`. -/
def Op.Holds (s : StreamState) (t : Tid) (o : Op) : Prop :=
  (.lock ∈ o.tokens → s.sendLock = some t) ∧
    match o with
    | .closeClosed _ => s.closed = false ∧ s.socketClosed = false
    | .connClose _ => s.closed = true ∧ s.socketClosed = false
    | .cancel _ | .onceDone _ => s.closed = true ∧ s.socketClosed = true
    | _ => True

/-- What operations that neither lock nor close leave alone. -/
structure Frame (s s₁ : StreamState) : Prop where
  lock : s₁.sendLock = s.sendLock
  once : s₁.onceEntered = s.onceEntered ∧ s₁.onceDone = s.onceDone
  closed : s₁.closed = s.closed ∧ s₁.socketClosed = s.socketClosed
  cap : s₁.writeCh.cap = s.writeCh.cap ∧ s₁.queueSize = s.queueSize
  log : s₁.log = s.log ∨ ∃ e, e ≠ .socketClosed ∧ s₁.log = e :: s.log

section Steps

variable {s s₁ : StreamState} {H H' : Token → Prop} {t : Tid} {c : Choice} {op o : Op}
  {ops : List Op} {start : Option (Tid × List Op)}

theorem Frame.inv (hf : Frame s s₁) (h : StreamInv s H) (hH : ∀ k, H' k → H k) :
    StreamInv s₁ H' := by
  obtain ⟨hlock, ⟨h1, h2⟩, ⟨h3, h4⟩, ⟨h5, h6⟩, hlog⟩ := hf
  have hsocket : (.socketClosed ∈ s₁.log ↔ .socketClosed ∈ s.log) ∧
      Pool.Each (fun e log => e = .socketClosed → .socketClosed ∉ log) s₁.log := by
    rcases hlog with hlog | ⟨e, he, hlog⟩
    · rw [hlog]
      exact ⟨Iff.rfl, h.single⟩
    · rw [hlog, List.mem_cons]
      exact ⟨or_iff_right (Ne.symm he), fun heq => absurd heq he, h.single⟩
  refine ⟨fun hk => ?_, fun hk => ?_, ?_, ?_, ?_, hsocket.2, ?_⟩
  · rw [hlock]
    exact h.lock (hH _ hk)
  · rw [h1, h2]
    exact h.once (hH _ hk)
  · rw [h1, h2, h3, h4]
    exact h.fresh
  · rw [h2, h3, h4]
    exact h.done
  · rw [h4, hsocket.1]
    exact h.socket
  · rw [h5, h6]
    exact h.cap

theorem Frame.holds (hf : Frame s s₁) (h : o.Holds s t) : o.Holds s₁ t := by
  obtain ⟨hlock, -, ⟨h3, h4⟩, -, -⟩ := hf
  refine ⟨fun hk => ?_, ?_⟩
  · rw [hlock]
    exact h.1 hk
  · have := h.2
    cases o <;> simp only [h3, h4] at this ⊢ <;> exact this

/-- What one operation leaves behind. -/
structure Kept (s s₁ : StreamState) (H : Token → Prop) (t : Tid) (op : Op) (ops : List Op)
    (start : Option (Tid × List Op)) : Prop where
  nodup : (ops.flatMap Op.tokens ++ Pool.startTokens Op.tokens start).Nodup
  free : ∀ k ∈ ops.flatMap Op.tokens ++ Pool.startTokens Op.tokens start, k ∈ op.tokens ∨ ¬ H k
  inv : StreamInv s₁ fun k => k ∈ ops.flatMap Op.tokens ++ Pool.startTokens Op.tokens start ∨
    (H k ∧ k ∉ op.tokens)
  stable : ∀ t o', (∀ k ∈ Op.tokens o', H k ∧ k ∉ op.tokens) → o'.Holds s t → o'.Holds s₁ t
  holds : ∀ o ∈ ops, o.Holds s₁ t
  started : System.StartOk (fun t o => Op.Holds s₁ t o) start

/-- The operations inside `closeOnce`. -/
def Op.closing : Op → Bool
  | .closeClosed _ | .connClose _ | .cancel _ | .onceDone _ => true
  | _ => false

theorem plain_holds (ho : o.closing = false) (hlock : .lock ∈ o.tokens → s.sendLock = some t) :
    o.Holds s t := by
  refine ⟨hlock, ?_⟩
  cases o <;> first | cases ho; done | trivial

theorem AfterSend.nodup (k : AfterSend) : (Token.lock :: k.tokens).Nodup := by
  cases k <;> decide

theorem CloseCaller.nodup (caller : CloseCaller) : (Token.once :: caller.tokens).Nodup := by
  rcases caller with _ | _ | k | _
  · decide
  · decide
  · cases k <;> decide
  · decide

theorem WriteCaller.nodup (caller : WriteCaller) : caller.tokens.Nodup := by
  rcases caller with _ | k | _
  · decide
  · exact k.nodup
  · decide

theorem Frame.kept (hf : Frame s s₁) (h : StreamInv s H) (hop : op.Holds s t)
    (hown : ∀ k ∈ op.tokens, H k)
    (hsub : ∀ k ∈ ops.flatMap Op.tokens ++ Pool.startTokens Op.tokens start, k ∈ op.tokens)
    (hnd : (ops.flatMap Op.tokens ++ Pool.startTokens Op.tokens start).Nodup)
    (hops : ∀ o ∈ ops, o.closing = false)
    (hstart : ∀ t' ops', start = some (t', ops') → ∀ o ∈ ops', .lock ∉ o.tokens ∧
      o.closing = false) :
    Kept s s₁ H t op ops start := by
  refine ⟨hnd, fun k hk => Or.inl (hsub k hk), hf.inv h fun k hk => ?_, fun t o' _ => hf.holds,
    fun o ho => plain_holds (hops o ho) fun hk => ?_, ?_⟩
  · exact hk.elim (fun hk => hown k (hsub k hk)) And.left
  · rw [hf.lock]
    exact hop.1 (hsub _ (List.mem_append_left _ (List.mem_flatMap.mpr ⟨o, ho, hk⟩)))
  · cases start with
    | none => trivial
    | some st =>
        intro o ho
        obtain ⟨h1, h2⟩ := hstart _ _ rfl o ho
        exact plain_holds h2 fun hk => absurd hk h1

/-- Somebody gets the send lock. -/
theorem StreamInv.lockTaken (h : StreamInv s H) (hfree : ¬ s.sendLock.isSome = true)
    (hown : ∀ k ∈ op.tokens, H k) (hlock₁ : s₁.sendLock = some t)
    (hf : Frame s { s₁ with sendLock := s.sendLock })
    (htok : o.tokens.Nodup ∧ ∀ k ∈ o.tokens, k = .lock ∨ k ∈ op.tokens) (ho : o.closing = false) :
    Kept s s₁ H t op [o] none := by
  have hnot : ¬ H .lock := fun hH => hfree (h.lock hH)
  have hflat : [o].flatMap Op.tokens ++ Pool.startTokens Op.tokens (none : Option (Tid × List Op)) =
      o.tokens := by
    simp [Pool.startTokens]
  refine ⟨hflat ▸ htok.1, fun k hk => ?_, ?_, fun x o' htok' hP => ⟨fun hk => ?_, ?_⟩,
    fun o' ho' => ?_, trivial⟩
  · rw [hflat] at hk
    rcases htok.2 k hk with rfl | hk
    · exact Or.inr hnot
    · exact Or.inl hk
  · rw [hflat]
    have hinv : StreamInv { s₁ with sendLock := s.sendLock } H := hf.inv h fun _ => id
    refine ⟨fun _ => by rw [hlock₁]; rfl, fun hk => hinv.once ?_, hinv.fresh, hinv.done,
      hinv.socket, hinv.single, hinv.cap⟩
    rcases hk with hk | hk
    · exact hown _ ((htok.2 _ hk).resolve_left (by simp))
    · exact hk.1
  · exact absurd (htok' _ hk).1 hnot
  · exact (hf.holds hP).2
  · rw [List.mem_singleton.mp ho']
    exact plain_holds ho fun _ => hlock₁

/-- The owner of the send lock gives it back. -/
theorem StreamInv.unlocked (h : StreamInv s H) {k : AfterSend}
    (hown : ∀ x ∈ (Op.unlock k).tokens, H x) :
    Kept s { s with sendLock := none } H t (.unlock k) k.returned none := by
  have hflat : k.returned.flatMap Op.tokens ++
      Pool.startTokens Op.tokens (none : Option (Tid × List Op)) <+: k.tokens := by
    cases k <;> simp [AfterSend.returned, AfterSend.tokens, Pool.startTokens, Op.tokens]
  have hlock : .lock ∉ k.tokens := (List.nodup_cons.mp k.nodup).1
  refine ⟨(List.nodup_cons.mp k.nodup).2.sublist hflat.sublist,
    fun x hx => Or.inl (List.mem_cons_of_mem _ (hflat.subset hx)), ?_, fun x o' htok hP =>
      ⟨fun hk => ?_, hP.2⟩, fun o ho => ⟨fun hk => ?_, ?_⟩, trivial⟩
  · refine ⟨fun hk => ?_, fun hk => h.once ?_, h.fresh, h.done, h.socket, h.single, h.cap⟩
    · rcases hk with hk | hk
      · exact absurd (hflat.subset hk) hlock
      · exact absurd List.mem_cons_self hk.2
    · rcases hk with hk | hk
      · exact hown _ (List.mem_cons_of_mem _ (hflat.subset hk))
      · exact hk.1
  · exact absurd List.mem_cons_self (htok _ hk).2
  · refine absurd (hflat.subset (List.mem_append_left _ ?_)) hlock
    exact List.mem_flatMap.mpr ⟨o, ho, hk⟩
  · cases k <;> simp [AfterSend.returned] at ho
    all_goals subst ho
    all_goals trivial

theorem once_of_closing (h : o.closing = true) : .once ∈ o.tokens := by
  cases o <;> first | exact List.mem_cons_self | cases h

/-- An operation of `close`, by whoever runs it. -/
theorem StreamInv.closes (h : StreamInv s H) (hop : op.Holds s t) (hown : ∀ k ∈ op.tokens, H k)
    (hlock : s₁.sendLock = s.sendLock) (honce : .once ∈ op.tokens ∨ ¬ H .once)
    (hsub : ∀ k ∈ ops.flatMap Op.tokens, k = .once ∨ k ∈ op.tokens)
    (hnd : (ops.flatMap Op.tokens).Nodup)
    (hentered : .once ∈ ops.flatMap Op.tokens → s₁.onceEntered = true ∧ s₁.onceDone = false)
    (hfresh : s₁.onceEntered = true)
    (hdone : s₁.onceDone = true → s₁.closed = true ∧ s₁.socketClosed = true)
    (hsocket : s₁.socketClosed = true ↔ .socketClosed ∈ s₁.log)
    (hsingle : Pool.Each (fun e log => e = .socketClosed → .socketClosed ∉ log) s₁.log)
    (hcap : s₁.writeCh.cap = s₁.queueSize)
    (hops : ∀ o ∈ ops, (.lock ∈ o.tokens → s₁.sendLock = some t) → o.Holds s₁ t) :
    Kept s s₁ H t op ops none := by
  have hflat : ops.flatMap Op.tokens ++ Pool.startTokens Op.tokens (none : Option (Tid × List Op)) =
      ops.flatMap Op.tokens := List.append_nil _
  refine ⟨by rwa [hflat], fun k hk => ?_, ?_, fun x o' htok hP => ⟨fun hk => ?_, ?_⟩, fun o ho =>
    hops o ho fun hk => ?_, trivial⟩
  · rw [hflat] at hk
    rcases hsub k hk with rfl | hk
    · exact honce
    · exact Or.inl hk
  · rw [hflat]
    refine ⟨fun hk => ?_, fun hk => ?_, fun hf => ?_, hdone, hsocket, hsingle, hcap⟩
    · rw [hlock]
      rcases hk with hk | hk
      · exact h.lock (hown _ ((hsub _ hk).resolve_left (by simp)))
      · exact h.lock hk.1
    · rcases hk with hk | hk
      · exact hentered hk
      · rcases honce with ho | ho
        · exact absurd ho hk.2
        · exact absurd hk.1 ho
    · rw [hfresh] at hf
      cases hf
  · rw [hlock]
    exact hP.1 hk
  · have hclosing : o'.closing = false := by
      refine Bool.eq_false_iff.mpr fun hc => ?_
      obtain ⟨h1, h2⟩ := htok _ (once_of_closing hc)
      exact honce.elim h2 fun hn => hn h1
    cases o' <;> first | cases hclosing; done | trivial
  · rw [hlock]
    refine hop.1 ((hsub _ (List.mem_flatMap.mpr ⟨o, ho, hk⟩)).resolve_left (by simp))

theorem CloseCaller.returned_sub (caller : CloseCaller) :
    caller.returned.flatMap Op.tokens <+: caller.tokens ∧ ∀ o ∈ caller.returned,
      o.closing = false := by
  rcases caller with _ | _ | k | _
  · exact ⟨by simp [CloseCaller.returned], by simp [CloseCaller.returned]⟩
  · exact ⟨by simp [CloseCaller.returned, Op.tokens], by simp [CloseCaller.returned, Op.closing]⟩
  · exact ⟨by simp [CloseCaller.returned, Op.tokens, CloseCaller.tokens],
      by simp [CloseCaller.returned, Op.closing]⟩
  · exact ⟨by simp [CloseCaller.returned, Op.tokens, CloseCaller.tokens, AfterSend.tokens],
      by simp [CloseCaller.returned, Op.closing]⟩

theorem StreamInv.exec_close (h : StreamInv s H) {caller : CloseCaller}
    (hop : op.Holds s t) (hown : ∀ k ∈ op.tokens, H k)
    (hkind : op = .close caller ∨ op = .closeClosed caller ∨ op = .connClose caller ∨
      op = .cancel caller ∨ op = .onceDone caller)
    (hex : exec s t c op = some (s₁, ops, start)) : Kept s s₁ H t op ops start := by
  obtain ⟨hret, hplain⟩ := caller.returned_sub
  have hnd := caller.nodup
  rcases hkind with rfl | rfl | rfl | rfl | rfl
  · simp only [HttpConnect.exec] at hex
    split at hex
    · cases hex
      refine Frame.kept ⟨rfl, ⟨rfl, rfl⟩, ⟨rfl, rfl⟩, ⟨rfl, rfl⟩, Or.inl rfl⟩ h hop hown
        ?_ ?_ hplain (by simp)
      · rw [Pool.startTokens, List.append_nil]
        exact fun k hk => hret.subset hk
      · rw [Pool.startTokens, List.append_nil]
        exact (List.nodup_cons.mp hnd).2.sublist hret.sublist
    · split at hex <;> cases hex
      next hnot hentered =>
        have hfalse := Bool.eq_false_iff.mpr hentered
        obtain ⟨h1, h2, h3⟩ := h.fresh hfalse
        have honce : ¬ H .once := by
          intro hH
          rw [(h.once hH).1] at hfalse
          cases hfalse
        refine h.closes hop hown rfl (Or.inr honce) ?_ ?_ (fun _ => ⟨rfl, h1⟩) rfl ?_ h.socket
          h.single h.cap ?_
        · simp [Op.tokens]
        · simpa [Op.tokens] using hnd
        · exact fun hd => absurd hd hnot
        · intro o ho hlock
          rw [List.mem_singleton.mp ho] at hlock ⊢
          exact ⟨hlock, h2, h3⟩
  · obtain ⟨hentered, hnot⟩ := h.once (hown _ List.mem_cons_self)
    simp only [HttpConnect.exec] at hex
    cases hex
    refine h.closes hop hown rfl (Or.inl List.mem_cons_self) ?_ ?_ (fun _ => ⟨hentered, hnot⟩)
      hentered ?_ h.socket h.single h.cap ?_
    · simp [Op.tokens]
    · simpa [Op.tokens] using hnd
    · intro hd
      rw [hnot] at hd
      cases hd
    · intro o ho hlock
      rw [List.mem_singleton.mp ho] at hlock ⊢
      exact ⟨hlock, rfl, hop.2.2⟩
  · obtain ⟨hentered, hnot⟩ := h.once (hown _ List.mem_cons_self)
    have hopen : .socketClosed ∉ s.log := by
      intro hin
      have hfalse : s.socketClosed = false := hop.2.2
      rw [h.socket.mpr hin] at hfalse
      cases hfalse
    simp only [HttpConnect.exec] at hex
    cases hex
    refine h.closes hop hown rfl (Or.inl List.mem_cons_self) ?_ ?_ (fun _ => ⟨hentered, hnot⟩)
      hentered ?_ ?_ ⟨fun _ => hopen, h.single⟩ h.cap ?_
    · simp [Op.tokens]
    · simpa [Op.tokens] using hnd
    · intro hd
      exact absurd hd (by simp [hnot])
    · simp
    · intro o ho hlock
      rw [List.mem_singleton.mp ho] at hlock ⊢
      exact ⟨hlock, hop.2.1, rfl⟩
  · obtain ⟨hentered, hnot⟩ := h.once (hown _ List.mem_cons_self)
    simp only [HttpConnect.exec] at hex
    cases hex
    refine h.closes hop hown rfl (Or.inl List.mem_cons_self) ?_ ?_ (fun _ => ⟨hentered, hnot⟩)
      hentered h.done h.socket h.single h.cap ?_
    · simp [Op.tokens]
    · simpa [Op.tokens] using hnd
    · intro o ho hlock
      rw [List.mem_singleton.mp ho] at hlock ⊢
      exact ⟨hlock, hop.2⟩
  · obtain ⟨hentered, hnot⟩ := h.once (hown _ List.mem_cons_self)
    simp only [HttpConnect.exec] at hex
    cases hex
    refine h.closes hop hown rfl (Or.inl List.mem_cons_self) ?_ ?_ (fun hin => ?_)
      hentered (fun _ => hop.2) h.socket h.single h.cap ?_
    · exact fun k hk => Or.inr (List.mem_cons_of_mem _ (hret.subset hk))
    · exact (List.nodup_cons.mp hnd).2.sublist hret.sublist
    · exact absurd (hret.subset hin) (List.nodup_cons.mp hnd).1
    · exact fun o ho hlock => plain_holds (hplain o ho) hlock

theorem enqueue_frame {pkt : FrontendPacket} {case : Case} (h : s.enqueue pkt case = some s₁) :
    Frame s s₁ := by
  unfold StreamState.enqueue at h
  repeat' split at h
  all_goals cases h
  all_goals exact ⟨rfl, ⟨rfl, rfl⟩, ⟨rfl, rfl⟩, ⟨rfl, rfl⟩, Or.inr ⟨_, by simp, rfl⟩⟩

theorem WriteCaller.returned_sub (caller : WriteCaller) :
    caller.failed.flatMap Op.tokens <+: caller.tokens ∧
      (∀ o ∈ caller.failed, o.closing = false) ∧
      caller.finished.flatMap Op.tokens = caller.tokens ∧
      ∀ o ∈ caller.finished, o.closing = false := by
  rcases caller with _ | k | _
  · exact ⟨⟨[.socket], rfl⟩, by simp [WriteCaller.failed, Op.closing], rfl,
      by simp [WriteCaller.finished, Op.closing]⟩
  · exact ⟨⟨[], by simp [WriteCaller.failed, WriteCaller.tokens, Op.tokens]⟩,
      by simp [WriteCaller.failed, Op.closing],
      by simp [WriteCaller.finished, WriteCaller.tokens, Op.tokens],
      by simp [WriteCaller.finished, Op.closing]⟩
  · exact ⟨⟨[.socket], rfl⟩, by simp [WriteCaller.failed, Op.closing], rfl,
      by simp [WriteCaller.finished, Op.closing]⟩

theorem StreamInv.exec (h : StreamInv s H) (hop : op.Holds s t) (hown : ∀ k ∈ op.tokens, H k)
    (hex : exec s t c op = some (s₁, ops, start)) : Kept s s₁ H t op ops start := by
  cases op with
  | close caller => exact h.exec_close hop hown (Or.inl rfl) hex
  | closeClosed caller => exact h.exec_close hop hown (Or.inr (Or.inl rfl)) hex
  | connClose caller => exact h.exec_close hop hown (Or.inr (Or.inr (Or.inl rfl))) hex
  | cancel caller => exact h.exec_close hop hown (Or.inr (Or.inr (Or.inr (Or.inl rfl)))) hex
  | onceDone caller => exact h.exec_close hop hown (Or.inr (Or.inr (Or.inr (Or.inr rfl)))) hex
  | unlock k =>
      simp only [HttpConnect.exec] at hex
      cases hex
      exact h.unlocked hown
  | send pkt k =>
      simp only [HttpConnect.exec] at hex
      split at hex <;> cases hex
      next hfree =>
        exact h.lockTaken hfree hown rfl
          ⟨rfl, ⟨rfl, rfl⟩, ⟨rfl, rfl⟩, ⟨rfl, rfl⟩, Or.inr ⟨_, by simp, rfl⟩⟩
          ⟨k.nodup, by simp [Op.tokens]⟩ rfl
  | sendDialResponse =>
      simp only [HttpConnect.exec] at hex
      split at hex <;> cases hex
      next hfree =>
        exact h.lockTaken hfree hown rfl ⟨rfl, ⟨rfl, rfl⟩, ⟨rfl, rfl⟩, ⟨rfl, rfl⟩, Or.inl rfl⟩
          ⟨by decide, by simp [Op.tokens, WriteCaller.tokens]⟩ rfl
  | connWrite b caller =>
      obtain ⟨hfail, hplain, hfin, hplain'⟩ := caller.returned_sub
      have hnd := caller.nodup
      have hfailed : ∀ e : Event, e ≠ .socketClosed →
          Kept s (s.record e) H t (.connWrite b caller) caller.failed none := by
        intro e he
        refine Frame.kept ⟨rfl, ⟨rfl, rfl⟩, ⟨rfl, rfl⟩, ⟨rfl, rfl⟩, Or.inr ⟨e, he, rfl⟩⟩ h hop hown
          ?_ ?_ hplain (by simp)
        · rw [Pool.startTokens, List.append_nil]
          exact fun k hk => hfail.subset hk
        · rw [Pool.startTokens, List.append_nil]
          exact hnd.sublist hfail.sublist
      simp only [HttpConnect.exec] at hex
      repeat' split at hex
      all_goals cases hex
      · exact hfailed _ (by simp)
      · exact hfailed _ (by simp)
      · refine Frame.kept ⟨rfl, ⟨rfl, rfl⟩, ⟨rfl, rfl⟩, ⟨rfl, rfl⟩, Or.inr ⟨_, by simp, rfl⟩⟩ h hop
          hown ?_ ?_ hplain' (by simp)
        · rw [Pool.startTokens, List.append_nil, hfin]
          exact fun k hk => hk
        · rw [Pool.startTokens, List.append_nil, hfin]
          exact hnd
      · refine Frame.kept ⟨rfl, ⟨rfl, rfl⟩, ⟨rfl, rfl⟩, ⟨rfl, rfl⟩, Or.inr ⟨_, by simp, rfl⟩⟩ h hop
          hown ?_ ?_ (by simp [Op.closing]) (by simp)
        · simp [Pool.startTokens, Op.tokens]
        · simpa [Pool.startTokens, Op.tokens] using hnd
  | startWriter =>
      simp only [HttpConnect.exec] at hex
      cases hex
      refine Frame.kept ⟨rfl, ⟨rfl, rfl⟩, ⟨rfl, rfl⟩, ⟨rfl, rfl⟩, Or.inl rfl⟩ h hop hown ?_ ?_
        (by simp [Op.closing]) ?_
      · split <;> simp [Pool.startTokens, Op.tokens]
      · split <;> simp [Pool.startTokens, Op.tokens]
      · intro t' ops' heq o ho
        split at heq <;> cases heq
        rw [List.mem_singleton.mp ho]
        exact ⟨by simp [Op.tokens], rfl⟩
  | writerLoop =>
      simp only [HttpConnect.exec] at hex
      cases hex
      refine Frame.kept ⟨rfl, ⟨rfl, rfl⟩, ⟨rfl, rfl⟩, ⟨rfl, rfl⟩, Or.inl rfl⟩ h hop hown ?_ ?_ ?_
        (by simp)
      · split <;> simp [Pool.startTokens, Op.tokens, CloseCaller.tokens]
      · split <;> simp [Pool.startTokens, Op.tokens, CloseCaller.tokens]
      · split <;> simp [Op.closing]
  | tryEnqueue pkt k =>
      have hnd := k.nodup
      simp only [HttpConnect.exec] at hex
      split at hex
      · split at hex <;> cases hex
        exact Frame.kept ⟨rfl, ⟨rfl, rfl⟩, ⟨rfl, rfl⟩, ⟨rfl, rfl⟩, Or.inl rfl⟩ h hop hown
          (by simp [Pool.startTokens, Op.tokens]) (by simpa [Pool.startTokens, Op.tokens] using hnd)
          (by simp [Op.closing]) (by simp)
      · obtain ⟨s', henq, heq⟩ := Option.map_eq_some_iff.mp hex
        cases heq
        exact Frame.kept (enqueue_frame henq) h hop hown (by simp [Pool.startTokens, Op.tokens])
          (by simpa [Pool.startTokens, Op.tokens] using hnd) (by simp [Op.closing]) (by simp)
  | blockedEnqueue pkt k =>
      have hnd := k.nodup
      simp only [HttpConnect.exec] at hex
      obtain ⟨s', henq, heq⟩ := Option.map_eq_some_iff.mp hex
      cases heq
      exact Frame.kept (enqueue_frame henq) h hop hown (by simp [Pool.startTokens, Op.tokens])
        (by simpa [Pool.startTokens, Op.tokens] using hnd) (by simp [Op.closing]) (by simp)
  | streamSend pkt k =>
      have hnd := k.nodup
      simp only [HttpConnect.exec] at hex
      repeat' split at hex
      all_goals cases hex
      all_goals refine Frame.kept ⟨rfl, ⟨rfl, rfl⟩, ⟨rfl, rfl⟩, ⟨rfl, rfl⟩, Or.inl rfl⟩ h hop hown
                  ?_ ?_ (by simp [Op.closing]) (by simp)
      all_goals simp only [List.flatMap_cons, List.flatMap_nil, List.append_nil, Pool.startTokens,
                  Op.tokens, WriteCaller.tokens, CloseCaller.tokens]
      all_goals first | exact hnd | exact fun _ => id
  | enqueueWrite pkt k =>
      have hnd := k.nodup
      simp only [HttpConnect.exec] at hex
      split at hex <;> cases hex
      · exact Frame.kept ⟨rfl, ⟨rfl, rfl⟩, ⟨rfl, rfl⟩, ⟨rfl, rfl⟩, Or.inr ⟨_, by simp, rfl⟩⟩ h hop
          hown (by simp [Pool.startTokens, Op.tokens])
          (by simpa [Pool.startTokens, Op.tokens] using hnd) (by simp [Op.closing]) (by simp)
      · exact Frame.kept ⟨rfl, ⟨rfl, rfl⟩, ⟨rfl, rfl⟩, ⟨rfl, rfl⟩, Or.inl rfl⟩ h hop
          hown (by simp [Pool.startTokens, Op.tokens])
          (by simpa [Pool.startTokens, Op.tokens] using hnd) (by simp [Op.closing]) (by simp)
  | _ =>
      simp only [HttpConnect.exec] at hex
      repeat' split at hex
      all_goals cases hex
      all_goals
        refine Frame.kept ⟨rfl, ⟨rfl, rfl⟩, ⟨rfl, rfl⟩, ⟨rfl, rfl⟩, ?_⟩ h hop hown ?_ ?_ ?_ ?_
      all_goals first
        | exact Or.inl rfl
        | exact Or.inr ⟨_, by simp, rfl⟩
        | simp [Pool.startTokens, Op.tokens, AfterSend.tokens, WriteCaller.tokens,
            CloseCaller.tokens, Op.closing]

end Steps

theorem stream_inv {queueSize xfrChannelSize : Nat}
    {okExec : StreamState → Tid → Choice → Op → Prop} {okArrive : StreamState → StreamAction → Prop}
    {s : System.State StreamState Tid Op}
    (h : Reach httpConnectStream.step (System.Allowed okExec okArrive)
      (newHTTPConnectStream queueSize xfrChannelSize) s) :
    Pool.Exclusive Op.tokens s.threads ∧ StreamInv s.shared (Pool.Held Op.tokens s.threads) ∧
      Pool.All (fun t o => Op.Holds s.shared t o) s.threads := by
  refine System.invariant_tokens Op.tokens StreamInv (fun s t o => o.Holds s t) ?_ ?_ ?_ ?_ ?_ h
  · refine ⟨fun t => ?_, fun t t' hne => ?_⟩
    · dsimp only [newHTTPConnectStream]
      split
      · decide
      · exact List.nodup_nil
    · dsimp only [newHTTPConnectStream]
      split
      · next ht =>
          rw [if_neg fun ht' => hne (ht.trans ht'.symm)]
          exact List.disjoint_nil_right _
      · exact List.disjoint_nil_left _
  · refine ⟨?_, ?_, fun _ => ⟨rfl, rfl, rfl⟩, (fun h => nomatch h), ?_, trivial, rfl⟩
    · rintro ⟨t, o, ho, hk⟩
      dsimp only [newHTTPConnectStream] at ho
      split at ho
      · rw [List.mem_singleton.mp ho] at hk
        simp [Op.tokens] at hk
      · cases ho
    · rintro ⟨t, o, ho, hk⟩
      dsimp only [newHTTPConnectStream] at ho
      split at ho
      · rw [List.mem_singleton.mp ho] at hk
        simp [Op.tokens] at hk
      · cases ho
    · simp [newHTTPConnectStream]
  · intro t o ho
    dsimp only [newHTTPConnectStream] at ho
    split at ho
    · rw [List.mem_singleton.mp ho]
      exact ⟨by simp [Op.tokens], trivial⟩
    · cases ho
  · intro s H t c o s₁ ops start _ _ hJ hP hown _ hex
    obtain ⟨h1, h2, h3, h4, h5, h6⟩ := hJ.exec hP hown hex
    exact ⟨⟨h1, h2⟩, h3, h4, h5, h6⟩
  · intro s H a s₁ start _ hJ _ harr
    change arrive s.shared a = some (s₁, start) at harr
    have hnew : Frame s.shared s₁ ∧ Pool.startTokens Op.tokens start = [] ∧
        ∀ t ops, start = some (t, ops) → ∀ o ∈ ops, .lock ∉ o.tokens ∧ o.closing = false := by
      cases a <;> simp only [arrive] at harr <;> repeat' split at harr
      all_goals cases harr
      all_goals refine ⟨⟨rfl, ⟨rfl, rfl⟩, ⟨rfl, rfl⟩, ⟨rfl, rfl⟩, ?_⟩, ?_, ?_⟩
      all_goals first
        | exact Or.inl rfl
        | exact Or.inr ⟨_, by simp, rfl⟩
        | rfl
        | simp [Op.tokens, CloseCaller.tokens, AfterSend.tokens, Op.closing]
    obtain ⟨hf, htok, hst⟩ := hnew
    rw [htok]
    refine ⟨⟨List.nodup_nil, by simp⟩, hf.inv hJ (by simp), fun t o => hf.holds, ?_⟩
    cases start with
    | none => trivial
    | some st =>
        intro o ho
        obtain ⟨h1, h2⟩ := hst _ _ rfl o ho
        exact plain_holds h2 fun hk => absurd hk h1

end Konnectivity.Server.HttpConnect
