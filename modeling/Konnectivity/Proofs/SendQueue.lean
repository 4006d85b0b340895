import Konnectivity.Server.SendQueue

/-!
# The send queue loses and reorders nothing

One invariant ties the flag, the queue and the program counter of the sender
together: either the flag is off, nobody sends and nothing is queued, or the
flag is on and exactly the goroutine started last is running. The packets
accepted are then those passed to `Send`, the one the sender has taken out but
not passed on, and those still queued, in this order.
-/

namespace Konnectivity.SendQueue

open Lib

/-- The places of `sendQueued`, each with the packet it has in hand. -/
inductive SenderAt : List Op → List Packet → Prop where
  | waiting : SenderAt [.lock, .pop] []
  | holding : SenderAt [.pop] []
  | sending (p : Packet) : SenderAt [.send p, .sent p, .lock, .pop] [p]
  | blocked (p : Packet) : SenderAt [.sent p, .lock, .pop] []

theorem SenderAt.ne_nil {ops : List Op} {hand : List Packet} (h : SenderAt ops hand) :
    ops ≠ [] := by
  cases h <;> simp

/-- The places of `queueSend`. -/
inductive CallerAt : List Op → Prop where
  | done : CallerAt []
  | waiting (p : Packet) : CallerAt [.lock, .append p]
  | holding (p : Packet) : CallerAt [.append p]

/-- No sender runs: nothing is left to send. -/
structure Idle (s : System.State Queue Tid Op) : Prop where
  flag : s.shared.queueSending = false
  senders : ∀ n, s.threads (.sender n) = []
  queue : s.shared.queued = []
  sent : s.shared.accepted = s.shared.passed

/-- The sender started last runs, with these packets in hand. -/
structure Busy (s : System.State Queue Tid Op) (n : Nat) (hand : List Packet) : Prop where
  flag : s.shared.queueSending = true
  last : s.shared.started = n + 1
  sender : SenderAt (s.threads (.sender n)) hand
  others : ∀ m, m ≠ n → s.threads (.sender m) = []
  sent : s.shared.accepted = s.shared.passed ++ hand ++ s.shared.queued

structure Inv (s : System.State Queue Tid Op) : Prop where
  callers : ∀ i, CallerAt (s.threads (.caller i))
  senders : Idle s ∨ ∃ n hand, Busy s n hand

variable {s : System.State Queue Tid Op} {b : Queue} {ops rest : List Op}

theorem inv_init : Inv init :=
  ⟨fun _ => .done, Or.inl ⟨rfl, fun _ => rfl, rfl, rfl⟩⟩

/-! ## Callers -/

/-- What a caller does leaves the places of the senders alone, unless it starts
one. -/
theorem senders_caller (i m : Nat) :
    Function.update s.threads (.caller i) ops (.sender m) = s.threads (.sender m) :=
  Function.update_of_ne (by simp) _ _

theorem callers_caller (h : ∀ j, CallerAt (s.threads (.caller j))) (hops : CallerAt ops)
    (i j : Nat) : CallerAt (Function.update s.threads (.caller i) ops (.caller j)) := by
  by_cases hj : j = i
  · subst hj
    rw [Function.update_self]
    exact hops
  · rw [Function.update_of_ne (by simpa using hj)]
    exact h j

theorem Idle.caller (h : Idle s) (i : Nat) (hflag : b.queueSending = s.shared.queueSending)
    (hqueue : b.queued = s.shared.queued) (haccepted : b.accepted = s.shared.accepted)
    (hpassed : b.passed = s.shared.passed) :
    Idle ⟨b, Function.update s.threads (.caller i) ops⟩ where
  flag := hflag.trans h.flag
  senders := fun n => by
    show Function.update s.threads (.caller i) ops (.sender n) = []
    rw [senders_caller]
    exact h.senders n
  queue := hqueue.trans h.queue
  sent := (haccepted.trans h.sent).trans hpassed.symm

theorem Busy.caller {n : Nat} {hand : List Packet} (h : Busy s n hand) (i : Nat)
    (hflag : b.queueSending = s.shared.queueSending) (hstarted : b.started = s.shared.started)
    (hsent : b.accepted = b.passed ++ hand ++ b.queued) :
    Busy ⟨b, Function.update s.threads (.caller i) ops⟩ n hand where
  flag := hflag.trans h.flag
  last := hstarted.trans h.last
  sender := by
    show SenderAt (Function.update s.threads (.caller i) ops (.sender n)) hand
    rw [senders_caller]
    exact h.sender
  others := fun m hm => by
    show Function.update s.threads (.caller i) ops (.sender m) = []
    rw [senders_caller]
    exact h.others m hm
  sent := hsent

/-- A packet appended while a sender runs is left to it. -/
theorem Busy.append {n : Nat} {hand : List Packet} (h : Busy s n hand) (i : Nat) (p : Packet) :
    Busy ⟨{ s.shared with
        queueMu := false
        queued := s.shared.queued ++ [p]
        accepted := s.shared.accepted ++ [p] }, Function.update s.threads (.caller i) ops⟩
      n hand := by
  refine h.caller i rfl rfl ?_
  show s.shared.accepted ++ [p] = s.shared.passed ++ hand ++ (s.shared.queued ++ [p])
  rw [h.sent, List.append_assoc _ s.shared.queued]

/-- A packet appended while none runs comes with a new sender. -/
theorem Idle.append (h : Idle s) (i : Nat) (p : Packet) :
    Busy ⟨{ s.shared with
        queueMu := false
        queued := s.shared.queued ++ [p]
        accepted := s.shared.accepted ++ [p]
        queueSending := true
        started := s.shared.started + 1 },
      Pool.spawn (Function.update s.threads (.caller i) ops)
        (some (.sender s.shared.started, sendQueued))⟩ s.shared.started [] where
  flag := rfl
  last := rfl
  sender := by
    show SenderAt (Pool.spawn _ (some (Tid.sender s.shared.started, sendQueued)) _) _
    rw [Pool.spawn, Function.update_self, senders_caller, h.senders, List.nil_append]
    exact .waiting
  others := fun m hm => by
    show Pool.spawn _ (some (Tid.sender s.shared.started, sendQueued)) _ = _
    rw [Pool.spawn, Function.update_of_ne (by simpa using hm), senders_caller, h.senders]
  sent := by
    show s.shared.accepted ++ [p] = s.shared.passed ++ [] ++ (s.shared.queued ++ [p])
    rw [h.sent, h.queue, List.append_nil, List.nil_append]

theorem inv_caller (h : Inv s) {i : Nat} {c : SendEnd} {o : Op} {start : Option (Tid × List Op)}
    (ht : s.threads (.caller i) = o :: rest)
    (hex : exec s.shared (.caller i) c o = some (b, ops, start)) :
    Inv ⟨b, Pool.spawn (Function.update s.threads (.caller i) (ops ++ rest)) start⟩ := by
  have hplace := h.callers i
  rw [ht] at hplace
  cases hplace with
  | waiting p =>
      simp only [exec] at hex
      split at hex
      · cases hex
      · cases hex
        refine ⟨callers_caller h.callers (.holding p) i, ?_⟩
        rcases h.senders with hidle | ⟨n, hand, hbusy⟩
        · exact Or.inl (hidle.caller i rfl rfl rfl rfl)
        · exact Or.inr ⟨n, hand, hbusy.caller i rfl rfl hbusy.sent⟩
  | holding p =>
      simp only [exec] at hex
      rcases h.senders with hidle | ⟨n, hand, hbusy⟩
      · rw [if_neg (by simp [hidle.flag])] at hex
        cases hex
        refine ⟨fun j => ?_, Or.inr ⟨s.shared.started, [], hidle.append i p⟩⟩
        dsimp only [Pool.spawn]
        rw [Function.update_of_ne (by simp)]
        exact callers_caller h.callers .done i j
      · rw [if_pos hbusy.flag] at hex
        cases hex
        exact ⟨callers_caller h.callers .done i, Or.inr ⟨n, hand, hbusy.append i p⟩⟩

/-! ## Senders -/

theorem callers_sender (h : ∀ j, CallerAt (s.threads (.caller j))) (n : Nat) (ops : List Op)
    (j : Nat) :
    CallerAt (Function.update s.threads (.sender n) ops (.caller j)) := by
  rw [Function.update_of_ne (by simp)]
  exact h j

/-- The running sender goes on to its next place. -/
theorem Busy.move {n : Nat} {hand hand' : List Packet} (h : Busy s n hand)
    (hflag : b.queueSending = s.shared.queueSending) (hstarted : b.started = s.shared.started)
    (hplace : SenderAt ops hand') (hsent : b.accepted = b.passed ++ hand' ++ b.queued) :
    Busy ⟨b, Function.update s.threads (.sender n) ops⟩ n hand' where
  flag := hflag.trans h.flag
  last := hstarted.trans h.last
  sender := by
    show SenderAt (Function.update s.threads (.sender n) ops (.sender n)) hand'
    rw [Function.update_self]
    exact hplace
  others := fun m hm => by
    show Function.update s.threads (.sender n) ops (.sender m) = []
    rw [Function.update_of_ne (by simpa using hm)]
    exact h.others m hm
  sent := hsent

/-- The sender that finds the queue empty switches the flag off and ends. -/
theorem Busy.idle {n : Nat} (h : Busy s n []) (hqueue : s.shared.queued = []) :
    Idle ⟨{ s.shared with queueMu := false, queueSending := false },
      Function.update s.threads (.sender n) []⟩ where
  flag := rfl
  senders := fun m => by
    show Function.update s.threads (.sender n) [] (.sender m) = []
    by_cases hm : m = n
    · rw [hm, Function.update_self]
    · rw [Function.update_of_ne (by simpa using hm)]
      exact h.others m hm
  queue := hqueue
  sent := by
    show s.shared.accepted = s.shared.passed
    rw [h.sent, hqueue, List.append_nil, List.append_nil]

theorem inv_sender (h : Inv s) {m : Nat} {c : SendEnd} {o : Op} {start : Option (Tid × List Op)}
    (ht : s.threads (.sender m) = o :: rest)
    (hex : exec s.shared (.sender m) c o = some (b, ops, start)) :
    Inv ⟨b, Pool.spawn (Function.update s.threads (.sender m) (ops ++ rest)) start⟩ := by
  rcases h.senders with hidle | ⟨n, hand, hbusy⟩
  · rw [hidle.senders m] at ht
    cases ht
  · have hm : m = n := by
      refine Classical.byContradiction fun hm => ?_
      rw [hbusy.others m hm] at ht
      cases ht
    subst hm
    have hplace := hbusy.sender
    have hsent := hbusy.sent
    rw [ht] at hplace
    cases hplace with
    | waiting =>
        simp only [exec] at hex
        split at hex
        · cases hex
        · cases hex
          refine ⟨callers_sender h.callers m [.pop], Or.inr ⟨m, [], ?_⟩⟩
          exact hbusy.move rfl rfl .holding hsent
    | holding =>
        simp only [exec] at hex
        split at hex
        · next hqueue =>
            cases hex
            exact ⟨callers_sender h.callers m [], Or.inl (hbusy.idle hqueue)⟩
        · next p queued hqueue =>
            cases hex
            rw [hqueue, List.append_nil] at hsent
            refine ⟨callers_sender h.callers m [.send p, .sent p, .lock, .pop],
              Or.inr ⟨m, [p], hbusy.move rfl rfl (.sending p) ?_⟩⟩
            rw [List.append_assoc]
            exact hsent
    | sending p =>
        cases hex
        refine ⟨callers_sender h.callers m [.sent p, .lock, .pop],
          Or.inr ⟨m, [], hbusy.move rfl rfl (.blocked p) ?_⟩⟩
        show s.shared.accepted = s.shared.passed ++ [p] ++ [] ++ s.shared.queued
        rw [List.append_nil]
        exact hsent
    | blocked p =>
        cases hex
        exact ⟨callers_sender h.callers m [.lock, .pop],
          Or.inr ⟨m, [], hbusy.move rfl rfl .waiting hsent⟩⟩

/-! ## Runs -/

theorem inv_reach (h : Reach backend.step System.unrestricted init s) : Inv s := by
  refine System.invariant_state Inv inv_init ?_ ?_ h
  · intro s t c o rest b ops start _ hinv _ ht _ hex
    cases t with
    | caller i => exact inv_caller (c := c) hinv ht hex
    | sender n => exact inv_sender (c := c) hinv ht hex
  · intro s a b start threads _ hinv _ _ harr harrived
    cases harr
    obtain ⟨-, rfl⟩ := harrived
    refine ⟨callers_caller hinv.callers (.waiting a.packet) a.caller, ?_⟩
    rcases hinv.senders with hidle | ⟨n, hand, hbusy⟩
    · exact Or.inl (hidle.caller a.caller rfl rfl rfl rfl)
    · exact Or.inr ⟨n, hand, hbusy.caller a.caller rfl rfl hbusy.sent⟩

/-- A `sendQueued` goroutine has not returned yet. -/
def Active (s : System.State Queue Tid Op) (n : Nat) : Prop :=
  s.threads (.sender n) ≠ []

/-- In every reachable state at most one sender is active, the packets passed
to `Send` are the first of the accepted ones in order, and none is left behind
without an active sender. -/
theorem queueSend_in_order (h : Reach backend.step System.unrestricted init s) :
    (∀ m n, Active s m → Active s n → m = n) ∧
    s.shared.passed <+: s.shared.accepted ∧
    (s.shared.passed ≠ s.shared.accepted → ∃ n, Active s n) ∧
    ((∀ n, ¬ Active s n) → s.shared.passed = s.shared.accepted) := by
  rcases (inv_reach h).senders with hidle | ⟨n, hand, hbusy⟩
  · have hsame := hidle.sent.symm
    refine ⟨fun m n hm => absurd (hidle.senders m) hm, ?_, fun hne => absurd hsame hne,
      fun _ => hsame⟩
    exact ⟨[], by rw [List.append_nil, hsame]⟩
  · have hactive : Active s n := hbusy.sender.ne_nil
    have hlast : ∀ m, Active s m → m = n := fun m hm =>
      Classical.byContradiction fun hne => hm (hbusy.others m hne)
    refine ⟨fun m m' hm hm' => (hlast m hm).trans (hlast m' hm').symm, ?_, fun _ => ⟨n, hactive⟩,
      fun hnone => absurd hactive (hnone n)⟩
    exact ⟨hand ++ s.shared.queued, by rw [hbusy.sent, List.append_assoc]⟩

/-- A caller queues a packet, the sender it started takes it and is still
inside `Send` when a second packet is queued. -/
def stalledRun (p q : Packet) : List (System.Action Tid Call SendEnd) :=
  [.arrive ⟨0, p⟩, .run (.caller 0) .ok, .run (.caller 0) .ok, .run (.sender 0) .ok,
    .run (.sender 0) .ok, .run (.sender 0) .ok, .arrive ⟨1, q⟩, .run (.caller 1) .ok,
    .run (.caller 1) .ok]

theorem queueSend_in_order_stalled :
    ∃ s, Reach backend.step System.unrestricted init s ∧
      s.shared.accepted = [Packet.newCloseRequest 1, Packet.newCloseRequest 2] ∧
      s.shared.passed = [Packet.newCloseRequest 1] ∧ ∃ n, Active s n := by
  obtain ⟨s, hs, hend⟩ : ∃ s, run backend.step init
      (stalledRun (Packet.newCloseRequest 1) (Packet.newCloseRequest 2)) = some s ∧
      decide (s.shared.accepted = [Packet.newCloseRequest 1, Packet.newCloseRequest 2] ∧
        s.shared.passed = [Packet.newCloseRequest 1]) = true := run_any (by decide)
  obtain ⟨haccepted, hpassed⟩ := of_decide_eq_true hend
  have hreach : Reach backend.step System.unrestricted init s := reach_of_run hs (by decide)
  refine ⟨s, hreach, haccepted, hpassed, (queueSend_in_order hreach).2.2.1 ?_⟩
  rw [haccepted, hpassed]
  decide

end Konnectivity.SendQueue
