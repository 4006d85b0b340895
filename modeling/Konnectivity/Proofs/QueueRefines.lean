import Konnectivity.Proofs.SendQueue
import Konnectivity.Server.DialSend

/-!
# The queue of a backend is a send queue

`Server/DialSend.lean` has the queue between the dials and the sends of other
goroutines, `Server/SendQueue.lean` has it alone. Here the first is shown to
be the second: forget the dials and the calls of `SendContext`, but for those
that `sendQueued` makes, and what is left of a run is a run of the queue. What
`Proofs/SendQueue.lean` says about the queue then holds in a backend.
-/

namespace Konnectivity.SendQueue

open Lib

/-! ## What the queue sees -/

/-- The goroutine of the backend that a goroutine of the queue is. -/
def Tid.ofBackend : Tid → DialSend.Tid
  | .caller i => .other i
  | .sender n => .queue n

/-- What an operation of the backend is to the queue. Inside `Send` the queue
sees nothing but its start and its return. -/
def Op.ofBackend : DialSend.Tid → DialSend.Op → List Op
  | _, .queueLock => [.lock]
  | _, .queueAppend p => [.append p]
  | _, .queuePop => [.pop]
  | .queue _, .sendContext _ p => [.send p, .sent p]
  | .queue _, o => (o.call?.map fun c => Op.sent c.packet).toList
  | _, _ => []

/-- A dial is sent by its own goroutines, and these do nothing else. What is
queued is sent by `sendQueued`. -/
def Placed : DialSend.Tid → DialSend.Op → Prop
  | .queue _, o => o.dial? = none
  | .other _, o => o.dial? = none ∧ o ≠ .queuePop
  | _, o => o.dial?.isSome ∨ o.call?.isSome

/-- The queue as the backend has it. -/
structure Views (s : System.State DialSend.Backend DialSend.Tid DialSend.Op)
    (q : System.State Queue Tid Op) : Prop where
  queueMu : q.shared.queueMu = s.shared.queueMu
  queued : q.shared.queued = s.shared.queued
  queueSending : q.shared.queueSending = s.shared.queueSending
  started : q.shared.started = s.shared.started
  threads : ∀ t, q.threads t = (s.threads t.ofBackend).flatMap (Op.ofBackend t.ofBackend)
  placed : Pool.All Placed s.threads

/-- The queue is left alone. -/
def SameQueue (b b' : DialSend.Backend) : Prop :=
  b'.queueMu = b.queueMu ∧ b'.queued = b.queued ∧ b'.queueSending = b.queueSending ∧
    b'.started = b.started

section Views

variable {s : System.State DialSend.Backend DialSend.Tid DialSend.Op}
  {q : System.State Queue Tid Op} {b b₀ : DialSend.Backend} {b' : Queue}
  {t : DialSend.Tid} {x : Tid} {o : DialSend.Op} {ops rest : List DialSend.Op}

theorem Tid.ofBackend_inj {x y : Tid} (h : x.ofBackend = y.ofBackend) : x = y := by
  cases x <;> cases y <;> cases h <;> rfl

/-- The operations of one goroutine are replaced, and the queue does not
see it. -/
theorem Views.unseen (h : Views s q) (hshared : SameQueue s.shared b)
    (hops : ops.flatMap (Op.ofBackend t) = (s.threads t).flatMap (Op.ofBackend t))
    (hplaced : ∀ o ∈ ops, Placed t o) : Views ⟨b, Function.update s.threads t ops⟩ q := by
  refine ⟨h.queueMu.trans hshared.1.symm, h.queued.trans hshared.2.1.symm,
    h.queueSending.trans hshared.2.2.1.symm, h.started.trans hshared.2.2.2.symm, fun y => ?_,
    h.placed.start hplaced⟩
  dsimp only
  rw [h.threads y]
  by_cases hy : y.ofBackend = t
  · rw [hy, Function.update_self, hops]
  · rw [Function.update_of_ne hy]

theorem Views.aside (h : Views s q) (ht : s.threads t = o :: rest)
    (hshared : SameQueue s.shared b)
    (hops : ops.flatMap (Op.ofBackend t) = Op.ofBackend t o)
    (hplaced : ∀ o ∈ ops, Placed t o) :
    Views ⟨b, Function.update s.threads t (ops ++ rest)⟩ q := by
  refine h.unseen hshared ?_ fun o' ho' => ?_
  · rw [ht, List.flatMap_append, List.flatMap_cons, hops]
  · rcases List.mem_append.mp ho' with ho' | ho'
    · exact hplaced o' ho'
    · exact h.placed t o' (by rw [ht]; exact List.mem_cons_of_mem _ ho')

/-- A step of a goroutine of the queue. -/
theorem Views.push (h : Views s q) (ht : s.threads x.ofBackend = o :: rest) {ops' : List Op}
    (hshared : b'.queueMu = b.queueMu ∧ b'.queued = b.queued ∧
      b'.queueSending = b.queueSending ∧ b'.started = b.started)
    (hops : ops.flatMap (Op.ofBackend x.ofBackend) = ops')
    (hplaced : ∀ o ∈ ops, Placed x.ofBackend o) :
    Views ⟨b, Function.update s.threads x.ofBackend (ops ++ rest)⟩
      ⟨b', Function.update q.threads x
        (ops' ++ rest.flatMap (Op.ofBackend x.ofBackend))⟩ := by
  refine ⟨hshared.1, hshared.2.1, hshared.2.2.1, hshared.2.2.2, fun y => ?_,
    h.placed.push ht hplaced⟩
  by_cases hy : y = x
  · subst hy
    simp [hops]
  · dsimp only
    rw [Function.update_of_ne hy, Function.update_of_ne fun heq => hy (Tid.ofBackend_inj heq)]
    exact h.threads y

theorem Views.spawn {n : Nat} (h : Views s q) :
    Views ⟨s.shared, Pool.spawn s.threads (some (.queue n, DialSend.sendQueued))⟩
      ⟨q.shared, Pool.spawn q.threads (some (.sender n, sendQueued))⟩ := by
  refine ⟨h.queueMu, h.queued, h.queueSending, h.started, fun y => ?_,
    h.placed.spawn (by simp [DialSend.sendQueued, Placed, DialSend.Op.dial?])⟩
  dsimp only [Pool.spawn]
  by_cases hy : y = .sender n
  · subst hy
    rw [Function.update_self, h.threads]
    simp [Tid.ofBackend, DialSend.sendQueued, Op.ofBackend, sendQueued]
  · have hne : y.ofBackend ≠ .queue n := fun heq => hy (Tid.ofBackend_inj (y := .sender n) heq)
    rw [Function.update_of_ne hy, Function.update_of_ne hne]
    exact h.threads y

/-- The goroutine of the queue that performs the operation. -/
theorem Views.thread (h : Views s q) (ht : s.threads x.ofBackend = o :: rest) {o' : Op}
    {l : List Op} (ho : Op.ofBackend x.ofBackend o = o' :: l) :
    q.threads x = o' :: (l ++ rest.flatMap (Op.ofBackend x.ofBackend)) := by
  rw [h.threads x, ht, List.flatMap_cons, ho, List.cons_append]

/-- A step of the backend that is one of the queue. -/
theorem Views.step {o' : Op} {l ops' : List Op} {start : Option (DialSend.Tid × List DialSend.Op)}
    {start' : Option (Tid × List Op)} (h : Views s q) (ht : s.threads x.ofBackend = o :: rest)
    (ho : Op.ofBackend x.ofBackend o = o' :: l)
    (hex : exec q.shared x .ok o' = some (b', ops', start'))
    (hshared : b'.queueMu = b.queueMu ∧ b'.queued = b.queued ∧
      b'.queueSending = b.queueSending ∧ b'.started = b.started)
    (hops : ops.flatMap (Op.ofBackend x.ofBackend) = ops' ++ l)
    (hplaced : ∀ o ∈ ops, Placed x.ofBackend o)
    (hstart : (start = none ∧ start' = none) ∨ ∃ n, start = some (.queue n, DialSend.sendQueued) ∧
      start' = some (.sender n, sendQueued)) :
    ∃ q', Reach backend.step System.unrestricted q q' ∧
      Views ⟨b, Pool.spawn (Function.update s.threads x.ofBackend (ops ++ rest)) start⟩ q' := by
  have hpush := h.push ht hshared hops hplaced
  rw [List.append_assoc] at hpush
  refine ⟨_, System.reach_step (System.step_run (c := .ok) rfl (h.thread ht ho) hex), ?_⟩
  rcases hstart with ⟨rfl, rfl⟩ | ⟨n, rfl, rfl⟩
  · exact hpush
  · exact hpush.spawn

/-- A goroutine that the queue does not know is started. -/
theorem Views.spawn_sender {i : Nat} {l : List DialSend.Op} (h : Views s q)
    (hplaced : ∀ o ∈ l, Placed (.sender i) o) :
    Views ⟨s.shared, Pool.spawn s.threads (some (.sender i, l))⟩ q := by
  refine ⟨h.queueMu, h.queued, h.queueSending, h.started, fun y => ?_, h.placed.spawn hplaced⟩
  have hne : y.ofBackend ≠ .sender i := by cases y <;> nofun
  dsimp only [Pool.spawn]
  rw [Function.update_of_ne hne]
  exact h.threads y

/-- Neither a dial nor a call of `SendContext` is anything to the queue,
unless `sendQueued` makes it. -/
theorem Op.ofBackend_of_ne (ht : ∀ n, t ≠ .queue n) (ho : o.dial?.isSome ∨ o.call?.isSome) :
    Op.ofBackend t o = [] := by
  cases o <;> simp_all [DialSend.Op.dial?, DialSend.Op.call?, Op.ofBackend]

theorem Op.ofBackend_queue {n : Nat} {c : DialSend.Call} (ho : o.call? = some c) :
    Op.ofBackend (.queue n) o = [.sent c.packet] := by
  cases o <;> cases ho <;> rfl

theorem placed_of_call (t : DialSend.Tid) {c : DialSend.Call} (ho : o.call? = some c) :
    Placed t o := by
  cases t with
  | caller i | sender i => exact Or.inr (by rw [ho]; rfl)
  | queue n => cases o <;> first | rfl | cases ho
  | other n => cases o <;> first | cases ho; exact ⟨rfl, nofun⟩ | cases ho

theorem Placed.caller {o' : DialSend.Op} {i : Nat} (h : Placed t o) (hi : o.dial? = some i)
    (ho' : o'.dial?.isSome ∨ o'.call?.isSome) : Placed t o' := by
  cases t with
  | queue n | other n => simp [Placed, hi] at h
  | caller j | sender j => exact ho'

/-- What `sendDialRequestToBackend` leaves alone. -/
theorem execDial_aside {timeout : Int} {pick : DialSend.Pick} {i : Nat} {d : DialSend.Dial}
    {start : Option (DialSend.Tid × List DialSend.Op)}
    (h : DialSend.execDial timeout b₀ pick i d o = some (b, ops, start)) :
    SameQueue b₀ b ∧ (∀ o' ∈ ops, o'.dial?.isSome ∨ o'.call?.isSome) ∧
      (start = none ∨ ∃ i c, start = some (.sender i, [.check c])) := by
  have hsingle {o' : DialSend.Op} (ho : o'.dial?.isSome ∨ o'.call?.isSome) :
      ∀ o ∈ [o'], o.dial?.isSome ∨ o.call?.isSome := fun o ho' => List.mem_singleton.mp ho' ▸ ho
  cases o with
  | start j =>
      simp only [DialSend.execDial] at h
      split at h <;> cases h
      · exact ⟨⟨rfl, rfl, rfl, rfl⟩, hsingle (Or.inr rfl), Or.inl rfl⟩
      · exact ⟨⟨rfl, rfl, rfl, rfl⟩, hsingle (Or.inl rfl), Or.inl rfl⟩
  | newSendCtx j | afterFunc j =>
      cases h
      exact ⟨⟨rfl, rfl, rfl, rfl⟩, hsingle (Or.inl rfl), Or.inl rfl⟩
  | goSend j =>
      cases h
      exact ⟨⟨rfl, rfl, rfl, rfl⟩, hsingle (Or.inl rfl), Or.inr ⟨_, _, rfl⟩⟩
  | finish j err =>
      cases h
      exact ⟨⟨rfl, rfl, rfl, rfl⟩, List.forall_mem_nil _, Or.inl rfl⟩
  | select j =>
      simp only [DialSend.execDial] at h
      split at h <;> obtain ⟨_, -, h⟩ := Option.map_eq_some_iff.mp h <;> cases h <;>
        exact ⟨⟨rfl, rfl, rfl, rfl⟩, hsingle (Or.inl rfl), Or.inl rfl⟩
  | resolve j =>
      simp only [DialSend.execDial] at h
      split at h
      · cases h
        exact ⟨⟨rfl, rfl, rfl, rfl⟩, hsingle (Or.inl rfl), Or.inl rfl⟩
      · obtain ⟨_, -, h⟩ := Option.map_eq_some_iff.mp h
        cases h
        exact ⟨⟨rfl, rfl, rfl, rfl⟩, hsingle (Or.inl rfl), Or.inl rfl⟩
  | _ => cases h

theorem execRet_aside {c : DialSend.Call} {err : Option DialSend.Err}
    {start : Option (DialSend.Tid × List DialSend.Op)}
    (h : DialSend.execRet b₀ c err = some (b, ops, start)) :
    SameQueue b₀ b ∧ ops = [] ∧ start = none := by
  unfold DialSend.execRet at h
  split at h
  · obtain ⟨d, -, h⟩ := Option.bind_eq_some_iff.mp h
    split at h
    · cases h
    · cases h
      exact ⟨⟨rfl, rfl, rfl, rfl⟩, rfl, rfl⟩
  · cases h
    exact ⟨⟨rfl, rfl, rfl, rfl⟩, rfl, rfl⟩
  · cases h
    exact ⟨⟨rfl, rfl, rfl, rfl⟩, rfl, rfl⟩

/-- A call of `SendContext` goes on, or returns. -/
theorem execSend_aside {pick : DialSend.Pick} {c : DialSend.Call}
    {start : Option (DialSend.Tid × List DialSend.Op)} (hc : o.call? = some c)
    (h : DialSend.execSend b₀ pick c o = some (b, ops, start)) :
    SameQueue b₀ b ∧ start = none ∧ (ops = [] ∨ ∃ o', ops = [o'] ∧ o'.call? = some c) := by
  cases o with
  | check c' | recheck c' =>
      simp only [DialSend.execSend] at h
      split at h <;> cases h <;> exact ⟨⟨rfl, rfl, rfl, rfl⟩, rfl, Or.inr ⟨_, rfl, rfl⟩⟩
  | lockSend c' =>
      simp only [DialSend.execSend] at h
      split at h
      · obtain ⟨e, -, h⟩ := Option.map_eq_some_iff.mp h
        cases h
        exact ⟨⟨rfl, rfl, rfl, rfl⟩, rfl, Or.inr ⟨_, rfl, rfl⟩⟩
      · split at h <;> cases h
        exact ⟨⟨rfl, rfl, rfl, rfl⟩, rfl, Or.inr ⟨_, rfl, rfl⟩⟩
  | streamSend c' | streamSent c' =>
      cases h
      exact ⟨⟨rfl, rfl, rfl, rfl⟩, rfl, Or.inr ⟨_, rfl, rfl⟩⟩
  | unlockSend c' err =>
      simp only [DialSend.execSend] at h
      split at h <;> cases h
      exact ⟨⟨rfl, rfl, rfl, rfl⟩, rfl, Or.inr ⟨_, rfl, rfl⟩⟩
  | ret c' err =>
      obtain ⟨hsame, rfl, rfl⟩ := execRet_aside h
      exact ⟨hsame, rfl, Or.inl rfl⟩
  | _ => cases hc

/-- A call of `Send` by `sendQueued` starts, and it returns. -/
theorem views_sendContext {ctx : DialSend.Ctx} {p : Packet}
    {start : Option (DialSend.Tid × List DialSend.Op)} (h : Views s q)
    (ht : s.threads t = .sendContext ctx p :: rest)
    (hex : DialSend.execQueue s.shared (.sendContext ctx p) = some (b, ops, start)) :
    ∃ q', Reach backend.step System.unrestricted q q' ∧
      Views ⟨b, Pool.spawn (Function.update s.threads t (ops ++ rest)) start⟩ q' := by
  cases hex
  cases t with
  | queue n =>
      exact h.step (x := .sender n) ht rfl rfl
        ⟨h.queueMu, h.queued, h.queueSending, h.started⟩ rfl
        (by simp [Placed, Tid.ofBackend, DialSend.Op.dial?]) (Or.inl ⟨rfl, rfl⟩)
  | _ =>
      exact ⟨q, .refl, h.aside ht ⟨rfl, rfl, rfl, rfl⟩ rfl
        (by simp [Placed, DialSend.Op.dial?, DialSend.Op.call?])⟩

theorem views_call {pick : DialSend.Pick} {c : DialSend.Call}
    {start : Option (DialSend.Tid × List DialSend.Op)} (h : Views s q)
    (ht : s.threads t = o :: rest) (hc : o.call? = some c)
    (hex : DialSend.execSend s.shared pick c o = some (b, ops, start)) :
    ∃ q', Reach backend.step System.unrestricted q q' ∧
      Views ⟨b, Pool.spawn (Function.update s.threads t (ops ++ rest)) start⟩ q' := by
  obtain ⟨hsame, rfl, hops⟩ := execSend_aside hc hex
  have hcalls : ∀ o' ∈ ops, o'.call? = some c := by
    rcases hops with rfl | ⟨o', rfl, ho'⟩
    · exact List.forall_mem_nil _
    · exact fun o ho => List.mem_singleton.mp ho ▸ ho'
  have hplaced : ∀ o' ∈ ops, Placed t o' := fun o' ho' => placed_of_call t (hcalls o' ho')
  by_cases hn : ∃ n, t = .queue n
  · obtain ⟨n, rfl⟩ := hn
    rcases hops with rfl | ⟨o', rfl, ho'⟩
    · exact h.step (x := .sender n) ht (Op.ofBackend_queue hc) rfl
        ⟨h.queueMu.trans hsame.1.symm, h.queued.trans hsame.2.1.symm,
          h.queueSending.trans hsame.2.2.1.symm, h.started.trans hsame.2.2.2.symm⟩ rfl hplaced
        (Or.inl ⟨rfl, rfl⟩)
    · refine ⟨q, .refl, h.aside ht hsame ?_ hplaced⟩
      simp [Op.ofBackend_queue hc, Op.ofBackend_queue ho']
  · refine ⟨q, .refl, h.aside ht hsame ?_ hplaced⟩
    have hne : ∀ n, t ≠ .queue n := fun n heq => hn ⟨n, heq⟩
    rw [Op.ofBackend_of_ne hne (Or.inr (by rw [hc]; rfl)), List.flatMap_eq_nil_iff]
    exact fun o' ho' => Op.ofBackend_of_ne hne (Or.inr (by rw [hcalls o' ho']; rfl))

theorem views_dial {timeout : Int} {pick : DialSend.Pick} {i : Nat} {d : DialSend.Dial}
    {start : Option (DialSend.Tid × List DialSend.Op)} (h : Views s q)
    (ht : s.threads t = o :: rest) (hi : o.dial? = some i)
    (hex : DialSend.execDial timeout s.shared pick i d o = some (b, ops, start)) :
    Views ⟨b, Pool.spawn (Function.update s.threads t (ops ++ rest)) start⟩ q := by
  obtain ⟨hsame, hops, hstart⟩ := execDial_aside hex
  have hat : Placed t o := h.placed t o (by rw [ht]; exact List.mem_cons_self)
  have hne : ∀ n, t ≠ .queue n := by
    rintro n rfl
    rw [Placed, hi] at hat
    cases hat
  have hview : Views ⟨b, Function.update s.threads t (ops ++ rest)⟩ q := by
    refine h.aside ht hsame ?_ fun o' ho' => hat.caller hi (hops o' ho')
    rw [Op.ofBackend_of_ne hne (Or.inl (by rw [hi]; rfl)), List.flatMap_eq_nil_iff]
    exact fun o' ho' => Op.ofBackend_of_ne hne (hops o' ho')
  rcases hstart with rfl | ⟨j, c, rfl⟩
  · exact hview
  · exact hview.spawn_sender fun o ho => List.mem_singleton.mp ho ▸ placed_of_call _ rfl

/-- The operations under `queueMu`. -/
theorem views_queue
    {start : Option (DialSend.Tid × List DialSend.Op)} (h : Views s q)
    (ht : s.threads t = o :: rest) (ho : o.dial? = none) (ho' : o.call? = none)
    (hex : DialSend.execQueue s.shared o = some (b, ops, start)) :
    ∃ q', Reach backend.step System.unrestricted q q' ∧
      Views ⟨b, Pool.spawn (Function.update s.threads t (ops ++ rest)) start⟩ q' := by
  have hat : Placed t o := h.placed t o (by rw [ht]; exact List.mem_cons_self)
  obtain ⟨x, rfl⟩ : ∃ x : Tid, t = x.ofBackend := by
    cases t with
    | queue n => exact ⟨.sender n, rfl⟩
    | other n => exact ⟨.caller n, rfl⟩
    | caller i | sender i => simp [Placed, ho, ho'] at hat
  cases o with
  | sendContext ctx p => exact views_sendContext h ht hex
  | queueLock =>
      simp only [DialSend.execQueue] at hex
      split at hex <;> cases hex
      next hmu =>
        have hlock : exec q.shared x .ok .lock =
            some ({ q.shared with queueMu := true }, [], none) :=
          if_neg (by rw [h.queueMu]; exact hmu)
        exact h.step ht (by cases x <;> rfl) hlock ⟨rfl, h.queued, h.queueSending, h.started⟩ rfl
          (List.forall_mem_nil _) (Or.inl ⟨rfl, rfl⟩)
  | queueAppend p =>
      have hqueued : q.shared.queued ++ [p] = s.shared.queued ++ [p] := by rw [h.queued]
      simp only [DialSend.execQueue] at hex
      split at hex <;> cases hex
      · next hsending =>
          have happend : exec q.shared x .ok (.append p) = some ({ q.shared with
              queueMu := false, queued := q.shared.queued ++ [p],
              accepted := q.shared.accepted ++ [p] }, [], none) :=
            if_pos (h.queueSending.trans hsending)
          exact h.step ht (by cases x <;> rfl) happend
            ⟨rfl, hqueued, h.queueSending, h.started⟩ rfl (List.forall_mem_nil _)
            (Or.inl ⟨rfl, rfl⟩)
      · next hsending =>
          have happend : exec q.shared x .ok (.append p) = some ({ q.shared with
              queueMu := false, queued := q.shared.queued ++ [p],
              accepted := q.shared.accepted ++ [p], queueSending := true,
              started := q.shared.started + 1 }, [],
              some (.sender q.shared.started, sendQueued)) :=
            if_neg (by rw [h.queueSending]; exact hsending)
          exact h.step ht (by cases x <;> rfl) happend
            ⟨rfl, hqueued, rfl, congrArg (· + 1) h.started⟩ rfl (List.forall_mem_nil _)
            (Or.inr ⟨_, rfl, by rw [h.started]⟩)
  | queuePop =>
      simp only [DialSend.execQueue] at hex
      split at hex <;> cases hex
      · next hnil =>
          have hpop : exec q.shared x .ok .pop =
              some ({ q.shared with queueMu := false, queueSending := false }, [], none) := by
            simp [exec, h.queued, hnil]
          exact h.step ht (by cases x <;> rfl) hpop ⟨rfl, h.queued, rfl, h.started⟩ rfl
            (List.forall_mem_nil _) (Or.inl ⟨rfl, rfl⟩)
      · next p queued hcons =>
          have hpop : exec q.shared x .ok .pop =
              some ({ q.shared with queueMu := false, queued := queued },
                [.send p, .sent p] ++ sendQueued, none) := by
            simp [exec, h.queued, hcons]
          obtain ⟨n, rfl⟩ : ∃ n, x = .sender n := by
            cases x with
            | sender n => exact ⟨n, rfl⟩
            | caller n => exact absurd rfl hat.2
          exact h.step ht rfl hpop ⟨rfl, rfl, h.queueSending, h.started⟩ rfl
            (by simp [DialSend.sendQueued, Tid.ofBackend, Placed, DialSend.Op.dial?])
            (Or.inl ⟨rfl, rfl⟩)
  | _ => cases hex

theorem Views.same (h : Views s q) (hshared : SameQueue s.shared b) : Views ⟨b, s.threads⟩ q :=
  ⟨h.queueMu.trans hshared.1.symm, h.queued.trans hshared.2.1.symm,
    h.queueSending.trans hshared.2.2.1.symm, h.started.trans hshared.2.2.2.symm, h.threads,
    h.placed⟩

/-- A call of `queueSend` is one to the queue, and nothing else is. -/
theorem views_arrive {timeout : Int} {a : DialSend.Event}
    {threads : DialSend.Tid → List DialSend.Op}
    {start : Option (DialSend.Tid × List DialSend.Op)} (h : Views s q)
    (harr : DialSend.arrive timeout s.shared a = some (b, start))
    (hthreads : Pool.Arrived s.threads start threads) :
    ∃ q', Reach backend.step System.unrestricted q q' ∧ Views ⟨b, threads⟩ q' := by
  cases a with
  | dial i p hasDone =>
      simp only [DialSend.arrive] at harr
      split at harr <;> cases harr
      obtain ⟨hidle, rfl⟩ := hthreads
      exact ⟨q, .refl, h.unseen ⟨rfl, rfl, rfl, rfl⟩ (by rw [hidle]; rfl)
        (by simp [Placed, DialSend.Op.dial?])⟩
  | send n ctx p =>
      simp only [DialSend.arrive] at harr
      split at harr <;> cases harr
      obtain ⟨hidle, rfl⟩ := hthreads
      exact ⟨q, .refl, h.unseen ⟨rfl, rfl, rfl, rfl⟩ (by rw [hidle]; rfl)
        (by simp [Placed, DialSend.Op.dial?])⟩
  | queueSend n p =>
      cases harr
      obtain ⟨hidle, rfl⟩ := hthreads
      have hthread : q.threads (.caller n) = [] := by rw [h.threads]; simp [Tid.ofBackend, hidle]
      refine ⟨_, System.reach_step (System.step_arrive (a := ⟨n, p⟩) rfl rfl ⟨hthread, rfl⟩),
        ⟨h.queueMu, h.queued, h.queueSending, h.started, fun y => ?_,
          h.placed.start (by simp [Placed, DialSend.Op.dial?])⟩⟩
      by_cases hy : y = .caller n
      · subst hy
        simp [Tid.ofBackend, Op.ofBackend, queueSend]
      · have hne : y.ofBackend ≠ .other n := fun heq => hy (Tid.ofBackend_inj (y := .caller n) heq)
        dsimp only
        rw [Function.update_of_ne hy, Function.update_of_ne hne]
        exact h.threads y
  | otherDone n e | backendDone e =>
      cases harr
      obtain rfl : threads = s.threads := hthreads
      exact ⟨q, .refl, h.same ⟨rfl, rfl, rfl, rfl⟩⟩
  | callerDone i e | propagate i | expire i | cancel i =>
      simp only [DialSend.arrive, DialSend.endDial] at harr
      split at harr
      · split at harr <;> cases harr
        obtain rfl : threads = s.threads := hthreads
        exact ⟨q, .refl, h.same ⟨rfl, rfl, rfl, rfl⟩⟩
      · cases harr

end Views

theorem views_init : Views DialSend.init init :=
  ⟨rfl, rfl, rfl, rfl, fun _ => rfl, fun _ _ => nofun⟩

/-- What the queue of a backend does between dials and other sends, it does on
its own. -/
theorem backend_refines_queue {timeout : Int}
    {s : System.State DialSend.Backend DialSend.Tid DialSend.Op}
    (h : Reach (DialSend.backend timeout).step System.unrestricted DialSend.init s) :
    ∃ q, Reach backend.step System.unrestricted init q ∧ Views s q := by
  refine System.simulation Views views_init ?_ ?_ h
  · intro s t pick o rest b ops start q _ hv ht hex
    change DialSend.exec timeout s.shared t pick o = _ at hex
    unfold DialSend.exec at hex
    split at hex
    · next i c hi =>
        obtain ⟨d, -, hex⟩ := Option.bind_eq_some_iff.mp hex
        exact ⟨q, .refl, views_dial hv ht hi hex⟩
    · next c hi hc => exact views_call hv ht hc hex
    · next hi hc => exact views_queue hv ht hi hc hex
  · intro s a b start threads q _ hv harr hthreads
    exact views_arrive hv harr hthreads

/-! ## What carries over -/

theorem Op.ofBackend_ne_nil {n : Nat} {o : DialSend.Op} (ho : o.dial? = none) :
    Op.ofBackend (.queue n) o ≠ [] := by
  cases o <;> first | exact List.cons_ne_nil _ _ | cases ho

/-- At a backend at most one `sendQueued` runs, and what is queued has one. -/
theorem backend_queue {timeout : Int} {s : System.State DialSend.Backend DialSend.Tid DialSend.Op}
    (h : Reach (DialSend.backend timeout).step System.unrestricted DialSend.init s) :
    (∀ m n, s.threads (.queue m) ≠ [] → s.threads (.queue n) ≠ [] → m = n) ∧
      (s.shared.queueSending = false → s.shared.queued = []) := by
  obtain ⟨q, hq, hview⟩ := backend_refines_queue h
  have hactive : ∀ n, s.threads (.queue n) ≠ [] → q.threads (.sender n) ≠ [] := by
    intro n hne hnil
    obtain ⟨o, rest, ht⟩ := List.exists_cons_of_ne_nil hne
    have ho := hview.placed (.queue n) o (by rw [ht]; exact List.mem_cons_self)
    rw [hview.threads (.sender n), List.flatMap_eq_nil_iff] at hnil
    exact Op.ofBackend_ne_nil ho (hnil o (ht ▸ List.mem_cons_self))
  rw [← hview.queueSending, ← hview.queued]
  rcases (inv_reach hq).senders with hidle | ⟨n, hand, hbusy⟩
  · exact ⟨fun m _ hm => absurd (hidle.senders m) (hactive m hm), fun _ => hidle.queue⟩
  · have hlast : ∀ m, s.threads (.queue m) ≠ [] → m = n := fun m hm =>
      Classical.byContradiction fun hne => hactive m hm (hbusy.others m hne)
    refine ⟨fun m m' hm hm' => (hlast m hm).trans (hlast m' hm').symm, fun hflag => ?_⟩
    rw [hbusy.flag] at hflag
    cases hflag

end Konnectivity.SendQueue
