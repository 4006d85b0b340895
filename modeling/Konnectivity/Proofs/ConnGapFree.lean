import Konnectivity.Proofs.ConnWrite

/-!
# No gap in what the agent is sent

The order of the packets on the agent stream comes from the send lock: whoever
is about to send holds it. `Close` cancels the context of every packet before
it queues its `CLOSE_REQ`, and a packet looks at its context after it has got
the lock, so none is sent behind the `CLOSE_REQ`.
-/

namespace Konnectivity.Server.Conn

open Lib

/-! ## The send lock -/

/-- The operations that hold the send lock. -/
def Op.locked : Op → Bool
  | .sendLocked _ _ _ | .streamSend _ _ | .unlockSend => true
  | _ => false

structure LockInv (s : System.State ConnState Tid Op) : Prop where
  holds : ∀ t, ∀ o ∈ s.threads t, o.locked = true → s.shared.sendLock = some t
  front : ∀ t, ∀ o ∈ (s.threads t).tail, o.locked = false

section Lock

variable {s : System.State ConnState Tid Op} {s₁ : ConnState} {t : Tid} {c : Choice} {op : Op}
  {ops rest : List Op} {start : Option (Tid × List Op)}

/-- The lock is taken, given back, or left alone. -/
theorem exec_lock {s : ConnState} (hex : exec s t c op = some (s₁, ops, start)) :
    (op.locked = false ∧ s.sendLock = none ∧ s₁.sendLock = some t ∧ ∃ o, ops = [o]) ∨
      (op = .unlockSend ∧ s₁.sendLock = none ∧ ops = []) ∨
      (s₁.sendLock = s.sendLock ∧ (∀ o ∈ ops, o.locked = true → op.locked = true) ∧
        ∀ o ∈ ops.tail, o.locked = false) := by
  cases op with
  | lockSend ctx pkt k =>
      simp only [exec] at hex
      repeat' split at hex
      all_goals cases hex
      · next hfree =>
          exact Or.inl ⟨rfl, by simpa using hfree, rfl, _, rfl⟩
      · exact Or.inr (Or.inr ⟨rfl, by simp [Op.locked], by simp⟩)
  | unlockSend =>
      simp only [exec] at hex
      cases hex
      exact Or.inr (Or.inl ⟨rfl, rfl, rfl⟩)
  | read n =>
      have hspec := readLoop_spec s n s.buffer s.rdata s.now c.elapsed
      simp only [exec] at hex
      generalize s.readLoop n s.rdata s.buffer s.now c.elapsed = r at hex hspec
      obtain ⟨s', result⟩ := r
      obtain ⟨⟨⟨now, hframe⟩, -, -⟩, -, -⟩ := hspec
      dsimp only at hframe
      cases result with
      | none =>
          cases hex
          rw [hframe]
          exact Or.inr (Or.inr ⟨rfl, by simp [Op.locked], by simp⟩)
      | some result =>
          cases hex
          rw [hframe]
          exact Or.inr (Or.inr ⟨rfl, by simp, by simp⟩)
  | select i deadline changed w =>
      simp only [exec] at hex
      obtain ⟨ops', hsel, heq⟩ := Option.map_eq_some_iff.mp hex
      cases heq
      unfold ConnState.select packetDone at hsel
      repeat' split at hsel
      all_goals cases hsel
      all_goals exact Or.inr (Or.inr ⟨rfl, by simp [Op.locked], by simp [Op.locked]⟩)
  | _ =>
      simp only [exec, packetDone] at hex
      repeat' split at hex
      all_goals cases hex
      all_goals exact Or.inr (Or.inr ⟨rfl, by simp [Op.locked], by simp [Op.locked]⟩)

theorem exec_started {s : ConnState} (hex : exec s t c op = some (s₁, ops, start)) {t' : Tid}
    {ops' : List Op} (h : start = some (t', ops')) :
    (t' = .queue ∧ ops' = [.sendQueued]) ∨ ∃ w, op = .startSend w ∧
      t' = .packet s.started ∧
        ops' = [.sendContext (.packet s.started) (s.dataPacket w) (.packet s.started)] := by
  subst h
  cases op with
  | read n =>
      simp only [exec] at hex
      split at hex <;> cases hex
  | select i deadline changed w =>
      simp only [exec] at hex
      obtain ⟨ops', -, heq⟩ := Option.map_eq_some_iff.mp hex
      cases heq
  | queueSend pkt =>
      simp only [exec] at hex
      injection hex with hex
      injection hex with _ hex
      injection hex with _ hex
      split at hex <;> cases hex
      exact Or.inl ⟨rfl, rfl⟩
  | startSend w =>
      simp only [exec] at hex
      cases hex
      exact Or.inr ⟨w, rfl, rfl, rfl⟩
  | _ =>
      simp only [exec] at hex
      repeat' split at hex
      all_goals cases hex

theorem LockInv.exec (h : LockInv s) (ht : s.threads t = op :: rest)
    (hex : exec s.shared t c op = some (s₁, ops, start)) :
    LockInv ⟨s₁, Pool.spawn (Function.update s.threads t (ops ++ rest)) start⟩ := by
  have hhead : op ∈ s.threads t := by
    rw [ht]
    exact List.mem_cons_self
  have hrest : ∀ o ∈ rest, o.locked = false := by
    intro o ho
    refine h.front t o ?_
    rw [ht]
    exact ho
  have hspawned : ∀ {x : Tid} {ops' : List Op}, start = some (x, ops') →
      ∀ o ∈ ops', o.locked = false := by
    intro x ops' hs o ho
    rcases exec_started hex hs with ⟨-, rfl⟩ | ⟨w, -, -, rfl⟩ <;>
      rw [List.mem_singleton.mp ho] <;> rfl
  refine ⟨fun x o ho hl => ?_, fun x o ho => ?_⟩
  · -- Whoever holds the lock afterwards.
    have ho' : o ∈ Function.update s.threads t (ops ++ rest) x := by
      rcases Pool.mem_of_spawn ho with ho | ⟨ops', hs, ho⟩
      · exact ho
      · rw [hspawned hs o ho] at hl
        cases hl
    by_cases hx : x = t
    · subst hx
      rw [Function.update_self] at ho'
      have ho' : o ∈ ops := (List.mem_append.mp ho').resolve_right fun hr => by
        rw [hrest o hr] at hl
        cases hl
      rcases exec_lock hex with ⟨-, -, hlock, -⟩ | ⟨-, -, rfl⟩ | ⟨hlock, hkeep, -⟩
      · exact hlock
      · cases ho'
      · rw [hlock]
        exact h.holds x op hhead (hkeep o ho' hl)
    · rw [Function.update_of_ne hx] at ho'
      have hold := h.holds x o ho' hl
      rcases exec_lock hex with ⟨-, hfree, -, -⟩ | ⟨rfl, -, -⟩ | ⟨hlock, -, -⟩
      · rw [hfree] at hold
        cases hold
      · rw [h.holds t _ hhead rfl] at hold
        exact absurd (Option.some.inj hold).symm hx
      · rw [hlock]
        exact hold
  · -- The rest of a goroutine holds no lock.
    have hupd : ∀ o ∈ (Function.update s.threads t (ops ++ rest) x).tail, o.locked = false := by
      intro o ho
      by_cases hx : x = t
      · subst hx
        rw [Function.update_self] at ho
        cases ops with
        | nil => exact hrest o (List.mem_of_mem_tail ho)
        | cons o' ops' =>
            rcases List.mem_append.mp ho with ho | ho
            · rcases exec_lock hex with ⟨-, -, -, o'', hone⟩ | ⟨-, -, hnil⟩ | ⟨-, -, htail⟩
              · cases hone
                cases ho
              · cases hnil
              · exact htail o ho
            · exact hrest o ho
      · rw [Function.update_of_ne hx] at ho
        exact h.front x o ho
    cases start with
    | none => exact hupd o ho
    | some st =>
        by_cases hx : x = st.1
        · subst hx
          dsimp only [Pool.spawn] at ho
          rw [Function.update_self] at ho
          have hnew := hspawned (rfl : some st = some (st.1, st.2))
          generalize Function.update s.threads t (ops ++ rest) st.1 = l at ho hupd
          cases l with
          | nil => exact hnew o (List.mem_of_mem_tail ho)
          | cons a l => exact (List.mem_append.mp ho).elim (hupd o) (hnew o)
        · dsimp only [Pool.spawn] at ho
          rw [Function.update_of_ne hx] at ho
          exact hupd o ho

theorem LockInv.arrive (h : LockInv s) {a : ConnAction}
    (harr : arrive s.shared a = some (s₁, start)) {threads : Tid → List Op}
    (hthreads : Pool.Arrived s.threads start threads) : LockInv ⟨s₁, threads⟩ := by
  have hframe : s₁.sendLock = s.shared.sendLock ∧
      ∀ t ops, start = some (t, ops) → ∀ o ∈ ops, o.locked = false := by
    cases a <;> simp only [Conn.arrive] at harr <;> repeat' split at harr
    all_goals cases harr
    all_goals refine ⟨rfl, fun t ops h => ?_⟩
    all_goals cases h
    all_goals simp [Op.locked]
  refine ⟨fun x o ho hl => ?_, fun x o ho => ?_⟩
  · dsimp only
    rw [hframe.1]
    rcases hthreads.of_mem ho with ho | ⟨ops', hs, ho⟩
    · exact h.holds x o ho hl
    · rw [hframe.2 _ _ hs o ho] at hl
      cases hl
  · cases start with
    | none =>
        rw [show threads = s.threads from hthreads] at ho
        exact h.front x o ho
    | some st =>
        obtain ⟨-, rfl⟩ := hthreads
        by_cases hx : x = st.1
        · subst hx
          dsimp only at ho
          rw [Function.update_self] at ho
          exact hframe.2 _ _ rfl o (List.mem_of_mem_tail ho)
        · dsimp only at ho
          rw [Function.update_of_ne hx] at ho
          exact h.front x o ho

end Lock

section Runs

variable {connID : ConnectID} {size : Nat} {okExec : ConnState → Tid → Choice → Op → Prop}
  {okArrive : ConnState → ConnAction → Prop} {s : System.State ConnState Tid Op}

theorem serverConn_lock
    (h : Reach serverConn.step (System.Allowed okExec okArrive) (newServerConn connID size) s) :
    LockInv s := by
  refine System.invariant_state LockInv ?_ ?_ ?_ h
  · exact ⟨(fun t o ho => nomatch ho), (fun t o ho => nomatch ho)⟩
  · intro s t c o rest s₁ ops start _ hinv _ ht _ hex
    exact hinv.exec ht hex
  · intro s a s₁ start threads _ hinv _ _ harr hthreads
    exact hinv.arrive harr hthreads

end Runs

/-! ## The `CLOSE_REQ` -/

/-- The packet an operation of `SendContext` or of the queue carries. -/
def Op.pkt : Op → Option Packet
  | .sendContext _ pkt _ | .lockSend _ pkt _ | .sendLocked _ pkt _ | .streamSend pkt _ => some pkt
  | .queueSend pkt => some pkt
  | _ => none

/-- The operations of `Close` after it has cancelled, and those of the queue
with its packet. -/
def Op.closing (pkt : Packet) (t : Tid) (o : Op) : Prop :=
  o = .closeRemove ∨ o = .queueSend pkt ∨ (t = .queue ∧ o.pkt = some pkt)

/-- Where the packet is when it is not in an operation. -/
def Sealed (s : ConnState) : Prop :=
  (.newCloseRequest s.connID ∈ s.queued ∨
    ∃ ok, .sent .queue (.newCloseRequest s.connID) ok ∈ s.log) → s.ctxDone = true

section Close

variable {s s₁ : ConnState} {t : Tid} {c : Choice} {op : Op} {ops : List Op}
  {start : Option (Tid × List Op)}

/-- What an operation leaves alone, and what it can have sent. -/
theorem exec_shared (hex : exec s t c op = some (s₁, ops, start)) :
    s₁.connID = s.connID ∧ (s.ctxDone = true → s₁.ctxDone = true) ∧
      (s.writeErr.isSome = true → s₁.writeErr.isSome = true) ∧
      (∀ pkt ∈ s₁.queued, pkt ∈ s.queued ∨ op = .queueSend pkt) ∧
      (s₁.log = s.log ∨ ∃ e, s₁.log = e :: s.log ∧ ∀ t' pkt ok, e = .sent t' pkt ok →
        t' = t ∧ ∃ k, op = .streamSend pkt k) := by
  cases op with
  | read n =>
      have hspec := readLoop_spec s n s.buffer s.rdata s.now c.elapsed
      simp only [exec] at hex
      generalize s.readLoop n s.rdata s.buffer s.now c.elapsed = r at hex hspec
      obtain ⟨s', result⟩ := r
      obtain ⟨⟨⟨now, hframe⟩, -, -⟩, -, -⟩ := hspec
      dsimp only at hframe
      cases result with
      | none =>
          cases hex
          rw [hframe]
          exact ⟨rfl, id, id, fun _ => Or.inl, Or.inl rfl⟩
      | some result =>
          cases hex
          rw [hframe]
          exact ⟨rfl, id, id, fun _ => Or.inl, Or.inr ⟨_, rfl, by simp⟩⟩
  | select i deadline changed w =>
      simp only [exec] at hex
      obtain ⟨ops', -, heq⟩ := Option.map_eq_some_iff.mp hex
      cases heq
      exact ⟨rfl, id, id, fun _ => Or.inl, Or.inl rfl⟩
  | streamSend pkt k =>
      simp only [exec] at hex
      cases hex
      refine ⟨rfl, id, id, fun _ => Or.inl, Or.inr ⟨_, rfl, fun t' pkt' ok he => ?_⟩⟩
      cases he
      exact ⟨rfl, k, rfl⟩
  | queueSend pkt =>
      simp only [exec] at hex
      cases hex
      refine ⟨rfl, id, id, fun p hp => ?_, Or.inl rfl⟩
      rcases List.mem_append.mp hp with hp | hp
      · exact Or.inl hp
      · exact Or.inr (congrArg _ (List.mem_singleton.mp hp).symm)
  | sendQueued =>
      simp only [exec] at hex
      split at hex <;> cases hex
      · exact ⟨rfl, id, id, fun _ => Or.inl, Or.inl rfl⟩
      · next pkt queued hq =>
          refine ⟨rfl, id, id, fun p hp => Or.inl ?_, Or.inl rfl⟩
          rw [hq]
          exact List.mem_cons_of_mem _ hp
  | setWriteErr i w =>
      simp only [exec] at hex
      cases hex
      exact ⟨rfl, id, fun _ => rfl, fun _ => Or.inl, Or.inr ⟨_, rfl, by simp⟩⟩
  | cancel =>
      simp only [exec] at hex
      cases hex
      exact ⟨rfl, fun _ => rfl, id, fun _ => Or.inl, Or.inl rfl⟩
  | _ =>
      simp only [exec] at hex
      repeat' split at hex
      all_goals cases hex
      all_goals first
        | exact ⟨rfl, id, id, fun _ => Or.inl, Or.inl rfl⟩
        | exact ⟨rfl, id, id, fun _ => Or.inl, Or.inr ⟨_, rfl, by simp⟩⟩

/-- Where the operations come from that bring a packet to the stream. -/
theorem exec_pkt (hex : exec s t c op = some (s₁, ops, start)) {o : Op} (ho : o ∈ ops) :
    (o = .closeRemove → op = .cancel ∧ s₁.ctxDone = true) ∧
      (∀ pkt, o = .queueSend pkt → op = .closeRemove) ∧
      (∀ w, o = .startSend w → s.closed = false ∧ s.writeErr = none) ∧
      (∀ pkt k, o = .streamSend pkt k → ∃ ctx, op = .sendLocked ctx pkt k ∧ s.ctxErr ctx = false) ∧
      ∀ pkt, o.pkt = some pkt → op.pkt = some pkt ∨ (op = .sendQueued ∧ pkt ∈ s.queued) ∨
        op = .closeRemove := by
  cases op with
  | read n =>
      simp only [exec] at hex
      split at hex <;> cases hex
      · rw [List.mem_singleton.mp ho]
        simp [Op.pkt]
      · cases ho
  | select i deadline changed w =>
      simp only [exec] at hex
      obtain ⟨ops', hsel, heq⟩ := Option.map_eq_some_iff.mp hex
      cases heq
      unfold ConnState.select packetDone at hsel
      repeat' split at hsel
      all_goals cases hsel
      all_goals simp only [List.mem_cons, List.not_mem_nil, or_false] at ho
      all_goals rcases ho with rfl | rfl
      all_goals simp [Op.pkt]
  | writePacket w =>
      simp only [exec] at hex
      split at hex
      · cases hex
        rw [List.mem_singleton.mp ho]
        simp [Op.pkt]
      · next hopen =>
          split at hex
          · cases hex
            rw [List.mem_singleton.mp ho]
            simp [Op.pkt]
          · next herr =>
              split at hex <;> cases hex <;> rw [List.mem_singleton.mp ho]
              · simp [Op.pkt]
              · simp [Op.pkt, hopen, herr]
  | sendLocked ctx pkt k =>
      simp only [exec] at hex
      split at hex <;> cases hex
      · simp only [List.mem_cons, List.not_mem_nil, or_false] at ho
        rcases ho with rfl | rfl <;> simp [Op.pkt]
      · next herr =>
          rw [List.mem_singleton.mp ho]
          refine ⟨by simp, by simp, by simp, fun pkt' k' heq => ?_, fun pkt' heq => Or.inl heq⟩
          cases heq
          exact ⟨ctx, rfl, Bool.eq_false_iff.mpr herr⟩
  | sendQueued =>
      simp only [exec] at hex
      split at hex <;> cases hex
      · cases ho
      · next pkt queued hq =>
          simp only [List.mem_cons, List.not_mem_nil, or_false] at ho
          rcases ho with rfl | rfl
          · refine ⟨by simp, by simp, by simp, by simp, fun pkt' heq => Or.inr (Or.inl ⟨rfl, ?_⟩)⟩
            cases heq
            rw [hq]
            exact List.mem_cons_self
          · simp [Op.pkt]
  | cancel =>
      simp only [exec] at hex
      cases hex
      split at ho
      · cases ho
      · rw [List.mem_singleton.mp ho]
        simp [Op.pkt]
  | closeRemove =>
      simp only [exec] at hex
      split at hex <;> cases hex
      · rw [List.mem_singleton.mp ho]
        exact ⟨by simp, fun _ _ => rfl, by simp, by simp, fun _ _ => Or.inr (Or.inr rfl)⟩
      · cases ho
  | _ =>
      simp only [exec, packetDone] at hex
      repeat' split at hex
      all_goals cases hex
      all_goals simp only [List.mem_cons, List.not_mem_nil, or_false] at ho
      all_goals first
        | exact ho.elim
        | rcases ho with rfl | rfl <;> simp [Op.pkt]

end Close

section Runs

variable {connID : ConnectID} {size : Nat} {okExec : ConnState → Tid → Choice → Op → Prop}
  {okArrive : ConnState → ConnAction → Prop} {s : System.State ConnState Tid Op}

/-- Nothing that arrives sends or queues the `CLOSE_REQ` of the connection. -/
theorem arrive_closing {s s₁ : ConnState} {a : ConnAction} {start : Option (Tid × List Op)}
    (harr : arrive s a = some (s₁, start)) :
    s₁.connID = s.connID ∧ s₁.ctxDone = s.ctxDone ∧ s₁.queued = s.queued ∧ s₁.log = s.log ∧
      s₁.closed = s.closed ∧ s₁.writeErr = s.writeErr ∧
      ∀ t ops, start = some (t, ops) → (∀ i, t ≠ .packet i) ∧ ∀ o ∈ ops,
        ¬o.closing (.newCloseRequest s.connID) t ∧ ∀ w, o ≠ .startSend w := by
  cases a with
  | queue k pkt =>
      simp only [arrive] at harr
      split at harr
      · cases harr
      · next hne =>
          cases harr
          refine ⟨rfl, rfl, rfl, rfl, rfl, rfl, fun t ops h => ?_⟩
          cases h
          simp [Op.closing, hne]
  | _ =>
      simp only [arrive] at harr
      cases harr
      refine ⟨rfl, rfl, rfl, rfl, rfl, rfl, fun t ops h => ?_⟩
      cases h
      all_goals simp [Op.closing]

theorem serverConn_connID
    (h : Reach serverConn.step (System.Allowed okExec okArrive) (newServerConn connID size) s) :
    s.shared.connID = connID := by
  refine System.invariant_state (fun s => s.shared.connID = connID) rfl ?_ ?_ h
  · intro s t c o rest s₁ ops start _ hinv _ _ _ hex
    exact (exec_shared hex).1.trans hinv
  · intro s a s₁ start threads _ hinv _ _ harr _
    exact (arrive_closing harr).1.trans hinv

/-- The `CLOSE_REQ` comes after the cancellation, wherever it is. -/
theorem serverConn_sealed
    (h : Reach serverConn.step (System.Allowed okExec okArrive) (newServerConn connID size) s) :
    Sealed s.shared ∧ ∀ t, ∀ o ∈ s.threads t, o.closing (.newCloseRequest s.shared.connID) t →
      s.shared.ctxDone = true := by
  refine System.invariant Sealed
    (fun s t o => o.closing (.newCloseRequest s.connID) t → s.ctxDone = true) ?_ ?_ ?_ ?_ h
  · rintro (h | ⟨ok, h⟩) <;> cases h
  · exact fun t o ho => nomatch ho
  · intro s a s₁ start _ hG _ harr
    obtain ⟨h1, h2, h3, h4, -, -, h5⟩ := arrive_closing harr
    refine ⟨?_, fun t o hP => ?_, ?_⟩
    · rw [Sealed, h1, h2, h3, h4]
      exact hG
    · rw [h1, h2]
      exact hP
    · cases start with
      | none => trivial
      | some st =>
          intro o ho hcl
          rw [h1] at hcl
          exact absurd hcl ((h5 _ _ rfl).2 o ho).1
  · intro s t c o rest s₁ ops start _ hG _ hP _ hex
    change exec s.shared t c o = some (s₁, ops, start) at hex
    obtain ⟨h1, h2, -, h3, h4⟩ := exec_shared hex
    refine ⟨fun hin => ?_, fun t' o' hP' => ?_, fun o' ho' hcl => ?_, ?_⟩
    · rw [h1] at hin
      rcases hin with hin | ⟨ok, hin⟩
      · rcases h3 _ hin with hin | rfl
        · exact h2 (hG (Or.inl hin))
        · exact h2 (hP (Or.inr (Or.inl rfl)))
      · rcases h4 with h4 | ⟨e, h4, hsent⟩
        · rw [h4] at hin
          exact h2 (hG (Or.inr ⟨ok, hin⟩))
        · rw [h4] at hin
          rcases List.mem_cons.mp hin with he | hin
          · obtain ⟨rfl, k, rfl⟩ := hsent _ _ _ he.symm
            exact h2 (hP (Or.inr (Or.inr ⟨rfl, rfl⟩)))
          · exact h2 (hG (Or.inr ⟨ok, hin⟩))
    · rw [h1]
      exact fun hcl => h2 (hP' hcl)
    · rw [h1] at hcl
      obtain ⟨hcancel, hqueue, -, -, hpkt⟩ := exec_pkt hex ho'
      rcases hcl with hcl | hcl | ⟨rfl, hcl⟩
      · exact (hcancel hcl).2
      · exact h2 (hP (Or.inl (hqueue _ hcl)))
      · rcases hpkt _ hcl with hpkt | ⟨-, hin⟩ | hpkt
        · exact h2 (hP (Or.inr (Or.inr ⟨rfl, hpkt⟩)))
        · exact h2 (hG (Or.inl hin))
        · exact h2 (hP (Or.inl hpkt))
    · cases start with
      | none => trivial
      | some st =>
          intro o' ho' hcl
          obtain ⟨t', ops'⟩ := st
          rcases exec_started hex rfl with ⟨rfl, rfl⟩ | ⟨w, -, rfl, rfl⟩
          · rw [List.mem_singleton.mp ho'] at hcl
            simp [Op.closing, Op.pkt] at hcl
          · rw [List.mem_singleton.mp ho'] at hcl
            simp [Op.closing] at hcl

/-- No packet of the connection is sent after its `CLOSE_REQ`. -/
def Event.BeforeClose (connID : ConnectID) : Event → List Event → Prop
  | .sent (.packet _) _ _, log => ∀ ok, .sent .queue (.newCloseRequest connID) ok ∉ log
  | _, _ => True

structure CloseOrder (connID : ConnectID) (s : System.State ConnState Tid Op) : Prop where
  ordered : Pool.Each (Event.BeforeClose connID) s.shared.log
  none : ∀ ok, .sent .queue (.newCloseRequest connID) ok ∈ s.shared.log →
    ∀ i pkt k, .streamSend pkt k ∉ s.threads (.packet i)

theorem serverConn_order
    (h : Reach serverConn.step (System.Allowed okExec okArrive) (newServerConn connID size) s) :
    CloseOrder connID s := by
  refine System.invariant_state (CloseOrder connID) ?_ ?_ ?_ h
  · exact ⟨trivial, fun _ h => nomatch h⟩
  · intro s t c o rest s₁ ops start hr hinv _ ht _ hex
    change exec s.shared t c o = some (s₁, ops, start) at hex
    have hhead : o ∈ s.threads t := by
      rw [ht]
      exact List.mem_cons_self
    have hlock := serverConn_lock hr
    obtain ⟨hconn, -, -, -, hlog⟩ := exec_shared hex
    -- What a packet of the connection is about to send, it was before or has seen no cancellation.
    have hstream : ∀ i pkt k, .streamSend pkt k ∈
        Pool.spawn (Function.update s.threads t (ops ++ rest)) start (.packet i) →
        .streamSend pkt k ∈ s.threads (.packet i) ∨
          (t = .packet i ∧ s.shared.ctxDone = false) := by
      intro i pkt k hin
      rcases Pool.mem_of_spawn hin with hin | ⟨ops', hs, hin⟩
      · rcases Pool.mem_of_push ht hin with ⟨rfl, hnew⟩ | hin
        · obtain ⟨ctx, rfl, hctx⟩ := (exec_pkt hex hnew).2.2.2.1 pkt k rfl
          have hof := serverConn_of hr hhead
          simp only [Op.of, Op.ofSend, decide_eq_true_eq] at hof
          rw [hof.1] at hctx
          exact Or.inr ⟨rfl, (Bool.or_eq_false_iff.mp hctx).1⟩
        · exact Or.inl hin
      · rcases exec_started hex hs with ⟨hq, -⟩ | ⟨w, -, -, rfl⟩
        · cases hq
        · simp at hin
    have hkeep : ∀ ok, .sent .queue (.newCloseRequest connID) ok ∈ s.shared.log →
        ∀ i pkt k, .streamSend pkt k ∉
          Pool.spawn (Function.update s.threads t (ops ++ rest)) start (.packet i) := by
      intro ok hsent i pkt k hin
      rcases hstream i pkt k hin with hin | ⟨-, hctx⟩
      · exact hinv.none ok hsent i pkt k hin
      · have hdone := (serverConn_sealed hr).1
          (Or.inr ⟨ok, by rw [serverConn_connID hr]; exact hsent⟩)
        rw [hctx] at hdone
        cases hdone
    rcases hlog with hlog | ⟨e, hlog, he⟩
    · refine ⟨?_, fun ok hsent => ?_⟩
      · dsimp only
        rw [hlog]
        exact hinv.ordered
      · dsimp only at hsent
        rw [hlog] at hsent
        exact hkeep ok hsent
    · refine ⟨?_, fun ok hsent i pkt k hin => ?_⟩
      · dsimp only
        rw [hlog]
        refine ⟨?_, hinv.ordered⟩
        cases e with
        | sent t' pkt ok =>
            obtain ⟨rfl, k, rfl⟩ := he _ _ _ rfl
            cases t' with
            | packet i => exact fun ok' hsent => hinv.none ok' hsent i pkt k hhead
            | _ => trivial
        | _ => trivial
      · dsimp only at hsent
        rw [hlog] at hsent
        rcases List.mem_cons.mp hsent with heq | hsent
        · -- Whoever sends the `CLOSE_REQ` holds the lock, so no packet does.
          obtain ⟨rfl, k', rfl⟩ := he _ _ _ heq.symm
          rcases hstream i pkt k hin with hin | ⟨hq, -⟩
          · have h1 := hlock.holds _ _ hhead rfl
            have h2 := hlock.holds _ _ hin rfl
            rw [h1] at h2
            cases h2
          · cases hq
        · exact hkeep ok hsent i pkt k hin
  · intro s a s₁ start threads _ hinv _ _ harr hthreads
    obtain ⟨-, -, -, hlog, -, -, hstart⟩ := arrive_closing harr
    refine ⟨?_, fun ok hsent i pkt k hin => ?_⟩
    · dsimp only
      rw [hlog]
      exact hinv.ordered
    · dsimp only at hsent hin
      rw [hlog] at hsent
      rcases hthreads.of_mem hin with hin | ⟨ops, hs, -⟩
      · exact hinv.none ok hsent i pkt k hin
      · exact (hstart _ _ hs).1 i rfl

/-! ## The last packet -/

/-- What the packets of the connection have handed to the stream. -/
def dataSends (log : List Event) : List Event :=
  log.filter fun
    | .sent (.packet _) _ _ => true
    | _ => false

/-- No packet is about to be sent, and none is going to be started. -/
theorem serverConn_last {s' : System.State ConnState Tid Op}
    (h : Reach serverConn.step (System.Allowed okExec okArrive) (newServerConn connID size) s)
    (hover : s.shared.closed = true ∨ s.shared.writeErr.isSome = true)
    (hstart : ∀ t w, .startSend w ∉ s.threads t)
    (hpackets : ∀ i, ∀ o ∈ s.threads (.packet i), o.pkt = none)
    (h' : Reach serverConn.step (System.Allowed okExec okArrive) s s') :
    dataSends s'.shared.log = dataSends s.shared.log := by
  refine (System.invariant
    (fun x => (x.closed = true ∨ x.writeErr.isSome = true) ∧
      dataSends x.log = dataSends s.shared.log)
    (fun _ t o => (∀ w, o ≠ .startSend w) ∧ ∀ i, t = .packet i → o.pkt = none)
    ⟨hover, rfl⟩ ?_ ?_ ?_ h').1.2
  · intro t o ho
    refine ⟨?_, ?_⟩
    · rintro w rfl
      exact hstart t w ho
    · rintro i rfl
      exact hpackets i o ho
  · intro x a s₁ start _ hG _ harr
    obtain ⟨-, -, -, hlog, hclosed, herr, hst⟩ := arrive_closing harr
    refine ⟨by rw [hlog, hclosed, herr]; exact hG, fun _ _ hP => hP, ?_⟩
    cases start with
    | none => trivial
    | some st =>
        obtain ⟨hne, hops⟩ := hst _ _ rfl
        exact fun o ho => ⟨(hops o ho).2, fun i hi => absurd hi (hne i)⟩
  · intro x t c o rest s₁ ops start hr hG ht hP _ hex
    change exec x.shared t c o = some (s₁, ops, start) at hex
    have hof : o.of t = true := serverConn_of (h.trans hr) (by rw [ht]; exact List.mem_cons_self)
    obtain ⟨-, -, herr, -, hlog⟩ := exec_shared hex
    refine ⟨⟨hG.1.imp (exec_closed hex).1 herr, ?_⟩, fun _ _ hP => hP, fun o' ho' => ?_, ?_⟩
    · rw [← hG.2]
      rcases hlog with hlog | ⟨e, hlog, he⟩
      · rw [hlog]
      · rw [hlog]
        refine List.filter_cons_of_neg ?_
        cases e with
        | sent t' pkt ok =>
            obtain ⟨rfl, k, rfl⟩ := he _ _ _ rfl
            cases t' with
            | packet i => cases hP.2 i rfl
            | _ => simp
        | _ => simp
    · obtain ⟨-, -, hs, -, hpkt⟩ := exec_pkt hex ho'
      refine ⟨?_, ?_⟩
      · rintro w rfl
        obtain ⟨h1, h2⟩ := hs w rfl
        rcases hG.1 with hc | hc
        · rw [h1] at hc
          cases hc
        · rw [h2] at hc
          cases hc
      · rintro i rfl
        cases hpk : o'.pkt with
        | none => rfl
        | some pkt =>
            rcases hpkt pkt hpk with hpkt | ⟨rfl, -⟩ | rfl
            · rw [hP.2 i rfl] at hpkt
              cases hpkt
            · cases hof
            · cases hof
    · cases start with
      | none => trivial
      | some st =>
          obtain ⟨t', ops'⟩ := st
          rcases exec_started hex rfl with ⟨rfl, rfl⟩ | ⟨w, rfl, -, -⟩
          · intro o' ho'
            rw [List.mem_singleton.mp ho']
            exact ⟨(fun _ h => nomatch h), (fun _ h => nomatch h)⟩
          · exact absurd rfl (hP.1 w)

end Runs

/-! ## No gap -/

/-- The `Write` an operation belongs to. -/
def Op.writing : Op → Option Writing
  | .write w | .writePacket w | .startSend w | .loadDeadline _ w => some w
  | .select _ _ _ w | .setWriteErr _ w | .writeReturn w _ => some w
  | _ => none

/-- The `Write` in progress. -/
def currentWrite (s : System.State ConnState Tid Op) : Option Writing :=
  (s.threads .writer).findSome? Op.writing

/-- What the `Write` in progress has counted as written. -/
def countedBytes (s : System.State ConnState Tid Op) : Bytes :=
  match currentWrite s with
  | none => []
  | some w => w.b.take w.n

/-- The `Write` waits for its packet. -/
def Op.awaits : Op → Option Writing
  | .loadDeadline _ w | .select _ _ _ w | .setWriteErr _ w => some w
  | _ => none

/-- The `Write` has failed, or is about to return its error. -/
def WriteFailed (s : System.State ConnState Tid Op) (w : Writing) : Prop :=
  ∃ err, .writeReturn w (some err) ∈ s.threads .writer ∨ .wrote w.b w.n (some err) ∈ s.shared.log

/-- What the agent stream has got, in a state of a connection. -/
structure GapFree (connID : ConnectID) (s : System.State ConnState Tid Op) : Prop where
  /-- The bytes that were counted, and at most one packet more: the next of a
  `Write` that waits for it, or of one that failed, and then it was the last. -/
  stream : ∃ extra, sentBytes s.shared.log =
      reportedBytes s.shared.log ++ countedBytes s ++ extra ∧
    (extra = [] ∨ ∃ w : Writing, extra = w.chunk ∧
      ((∃ o ∈ s.threads .writer, o.awaits = some w) ∨
        WriteFailed s w ∧ ∀ s',
          Reach serverConn.step System.unrestricted s s' →
          dataSends s'.shared.log = dataSends s.shared.log))
  packets : ∀ i pkt ok, .sent (.packet i) pkt ok ∈ s.shared.log →
    ∃ data, pkt = .ofData ⟨connID, "", data⟩ ∧ data.length ≤ maxConnDataPacketSize
  /-- After a `Write` has timed out no packet is started. -/
  timedOut : ∀ later i earlier, s.shared.log = later ++ Event.sendStarted i :: earlier →
    .timedOut ∉ earlier
  timedOutFails : ∀ later b n err earlier, s.shared.log = later ++ Event.wrote b n err :: earlier →
    .timedOut ∈ earlier → b ≠ [] → err ≠ none
  closeReq : ∀ later i pkt ok earlier,
    s.shared.log = later ++ Event.sent (.packet i) pkt ok :: earlier →
    ∀ ok', .sent .queue (.newCloseRequest connID) ok' ∉ earlier

theorem Writes.counted {s : System.State ConnState Tid Op} {stage : Stage}
    (h : Writes stage (s.threads .writer)) : countedBytes s = stage.progress := by
  unfold countedBytes currentWrite
  cases stage <;> generalize s.threads .writer = ops at h ⊢ <;> cases h <;> rfl

theorem Writes.awaits {ops : List Op} {i : Nat} {w : Writing} (h : Writes (.flying i w) ops) :
    ∃ o ∈ ops, o.awaits = some w := by
  cases h <;> exact ⟨_, List.mem_cons_self, rfl⟩

theorem PacketAt.pkt {i : Nat} {pkt : Packet} {err : Option ConnError}
    {errCh : Option (Option ConnError)} {ops : List Op} (h : PacketAt i pkt (.done err) errCh ops) :
    ∀ o ∈ ops, o.pkt = none := by
  cases h <;> simp [Op.pkt]

section Final

variable {connID : ConnectID} {size : Nat} {s : System.State ConnState Tid Op}

/-- A packet the writer gave up on has been sent: it was the last. -/
theorem WriteInv.final {stage : Stage} {w : Writing} {err : Option ConnError}
    (hinv : WriteInv s stage (some (w, .done err))) (hgave : GaveUp s.shared stage w)
    (hr : Reach serverConn.step System.unrestricted
      (newServerConn connID size) s) :
    WriteFailed s w ∧ ∀ s',
      Reach serverConn.step System.unrestricted s s' →
      dataSends s'.shared.log = dataSends s.shared.log := by
  obtain ⟨hover, hfail⟩ := hgave
  have hwriter := hinv.writer
  refine ⟨?_, fun s' hr' => serverConn_last hr hover (fun t w' hin => ?_) (fun i => ?_) hr'⟩
  · rcases hfail with ⟨err, rfl⟩ | ⟨err, hlog⟩
    · refine ⟨err, Or.inl ?_⟩
      generalize s.threads .writer = ops at hwriter ⊢
      cases hwriter <;> simp
    · exact ⟨err, Or.inr hlog⟩
  · have hof := serverConn_of hr hin
    cases t with
    | writer =>
        generalize s.threads .writer = ops at hwriter hin
        cases hwriter with
        | startSend hn => cases hinv.known
        | _ => simp at hin
    | _ => cases hof
  · by_cases hi : s.shared.started ≤ i
    · rw [(hinv.future i hi).1]
      simp
    · by_cases hlast : i + 1 = s.shared.started
      · obtain ⟨j, hj, hp⟩ := hinv.current w _ rfl
        obtain rfl : j = i := by omega
        exact hp.pkt
      · obtain ⟨pkt, err, hp⟩ := hinv.past i (by omega) fun h => absurd h hlast
        exact hp.pkt

/-- For every sequence of writes, deadlines and closes, in any interleaving
with the goroutines of the packets. -/
theorem write_gap_free
    (h : Reach serverConn.step System.unrestricted
      (newServerConn connID size) s) : GapFree connID s := by
  obtain ⟨stage, last, hinv⟩ := serverConn_write h
  have hbalance := hinv.balance
  rw [← hinv.writer.counted] at hbalance
  refine ⟨⟨unacked last, hbalance, ?_⟩, fun i pkt ok hs => ?_, fun later i earlier hlog => ?_,
    fun later b n err earlier hlog => ?_, fun later i pkt ok earlier hlog => ?_⟩
  · cases last with
    | none => exact Or.inl rfl
    | some x =>
        obtain ⟨w, phase⟩ := x
        cases phase with
        | pending => exact Or.inl rfl
        | done err =>
            cases err with
            | some err => exact Or.inl rfl
            | none =>
                refine Or.inr ⟨w, rfl, ?_⟩
                have hknown := hinv.known
                cases stage with
                | flying i w' =>
                    obtain ⟨-, phase, hl⟩ := hknown
                    cases hl
                    exact Or.inl hinv.writer.awaits
                | checked w' => cases hknown
                | idle => exact Or.inr (hinv.final (hknown w _ rfl) h)
                | ready w' => exact Or.inr (hinv.final (hknown w _ rfl) h)
                | leaving w' err => exact Or.inr (hinv.final (hknown w _ rfl) h)
  · rw [← serverConn_connID h]
    exact hinv.packets i pkt ok hs
  · exact hinv.justified.at_append hlog
  · exact hinv.justified.at_append hlog
  · exact (serverConn_order h).ordered.at_append hlog

end Final

/-- A `Write` times out after its packet has got the lock. The packet is sent,
the next `Write` fails without a deadline, and the `CLOSE_REQ` comes last. -/
theorem write_gap_free_timed_out :
    ∃ s : System.State ConnState Tid Op,
      Reach serverConn.step System.unrestricted
        (newServerConn 1 2) s ∧
        sentBytes s.shared.log = [1, 2, 3] ∧ reportedBytes s.shared.log = [] ∧
        .wrote [4] 0 (some .deadlineExceeded) ∈ s.shared.log ∧
        .sent .queue (.newCloseRequest 1) true ∈ s.shared.log ∧ GapFree 1 s := by
  let acts : List (System.Action Tid ConnAction Choice) :=
    [.arrive (.setWriteDeadline (some 5)), .arrive (.write [1, 2, 3]), .run .writer {},
      .run .writer {}, .run .writer {}, .run .writer {}, .arrive (.tick 5),
      .run (.packet 0) {}, .run (.packet 0) {}, .run (.packet 0) {},
      .run .writer { case := .expired }, .run .writer {}, .run (.packet 0) {}, .run (.packet 0) {},
      .run .writer {}, .run .writer {}, .arrive (.setWriteDeadline none), .arrive (.write [4]),
      .run .writer {}, .run .writer {}, .run .writer {}, .arrive (.close 0), .run (.closer 0) {},
      .run (.closer 0) {}, .run (.closer 0) {}, .run (.closer 0) {}, .run (.closer 0) {},
      .run .queue {}, .run .queue {}, .run .queue {}, .run .queue {}, .run .queue {}]
  obtain ⟨s, hs, hend⟩ : ∃ s, run serverConn.step (newServerConn 1 2) acts = some s ∧
      decide (sentBytes s.shared.log = [1, 2, 3] ∧ reportedBytes s.shared.log = [] ∧
        .wrote [4] 0 (some .deadlineExceeded) ∈ s.shared.log ∧
        .sent .queue (.newCloseRequest 1) true ∈ s.shared.log) = true :=
    run_any (by decide)
  obtain ⟨h1, h2, h3, h4⟩ := of_decide_eq_true hend
  have hreach : Reach serverConn.step System.unrestricted
      (newServerConn 1 2) s :=
    reach_of_run hs (by decide)
  exact ⟨s, hreach, h1, h2, h3, h4, write_gap_free hreach⟩

end Konnectivity.Server.Conn
