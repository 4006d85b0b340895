import Konnectivity.Client.Reusable
import Mathlib.Data.Finset.Card

/-!
# The life of a reusable tunnel

Every `children.Add` makes a slot, and some goroutine owes the `Done` for it:
the caller of `DialContext` at first, and the goroutine that waits for the
child once there is one. The slots are tokens that the operations carry, and
so are the establishment of a stream, the running child, and what `Close` has
yet to do. The counter is the number of slots.
-/

namespace Konnectivity.Client.Reusable

open Lib

/-- What an operation owes. -/
inductive Token where
  /-- The call has not been accepted yet. -/
  | call (d : CallID)
  /-- `children.Done()`. -/
  | slot (d : CallID)
  /-- `Proxy`. -/
  | proxy (d : CallID)
  /-- The `done` of the child. -/
  | child (d : CallID)
  /-- `cc.Close()`. -/
  | conn
  /-- `close(r.done)`. -/
  | done
  deriving DecidableEq, Repr

@[grind =]
def Op.tokens : Op → List Token
  | .dialContext d _ | .accept d | .close d => [.call d]
  | .establish d => [.slot d, .proxy d]
  | .select d | .drain d | .startWatch d | .awaitInner d | .childrenDone d => [.slot d]
  | .proxy d => [.proxy d]
  | .startServe d | .serve d | .closeInner d => [.child d]
  | .tunnelCancel _ | .childrenWait _ | .connClose _ => [.conn, .done]
  | .closeDone _ _ => [.done]
  | _ => []

/-- The call an event belongs to. -/
def Event.call : Event → Option CallID
  | .added d | .childDone d | .refused d | .opened d | .notOpened d | .finished d => some d
  | .dialReturned d _ | .closing d => some d
  | .connClosed _ | .doneClosed | .closeReturned _ _ => none

/-- The events of `Close`. -/
def Event.ofClose : Event → Bool
  | .closing _ | .connClosed _ | .doneClosed | .closeReturned _ _ => true
  | _ => false

/-- The slots: `Add` without `Done`. -/
@[grind =]
def slots : List Event → Finset CallID
  | [] => ∅
  | .added d :: log => insert d (slots log)
  | .childDone d :: log => (slots log).erase d
  | _ :: log => slots log

/-- The child streams still running. -/
@[grind =]
def running : List Event → Finset CallID
  | [] => ∅
  | .opened d :: log => insert d (running log)
  | .finished d :: log => (running log).erase d
  | _ :: log => running log

/-- What an event says about the log before it. -/
def Event.Justified : Event → List Event → Prop
  | .added d, log => (∀ e ∈ log, e.call ≠ some d) ∧ ∀ k, .closing k ∉ log
  | .childDone d, log => d ∈ slots log ∧ (.notOpened d ∈ log ∨ .finished d ∈ log)
  | .opened d, log => .added d ∈ log ∧ .opened d ∉ log ∧ .notOpened d ∉ log
  | .notOpened d, log => .opened d ∉ log
  | .finished d, log => d ∈ running log
  | .refused d, log => (∀ e ∈ log, e.call ≠ some d) ∧ ∃ k, .closing k ∈ log
  | .dialReturned d ret, log => .added d ∈ log ∨ (.refused d ∈ log ∧ ret = tunnelClosed) ∨
      (.refused d ∉ log ∧ ret = protocolNotSupported)
  | .closing _, log => ∀ k, .closing k ∉ log
  | .connClosed _, log => (∃ k, .closing k ∈ log) ∧ (∀ err, .connClosed err ∉ log) ∧
      slots log = ∅
  | .doneClosed, log => .doneClosed ∉ log ∧ ∃ err, .connClosed err ∈ log
  | .closeReturned k err, log => .doneClosed ∈ log ∧
      ((.closing k ∈ log ∧ .connClosed err ∈ log) ∨ (.closing k ∉ log ∧ err = none))

/-! ## What the log tells -/

section Log

variable {log : List Event} {d : CallID}

theorem added_of_slots : ∀ {log : List Event}, d ∈ slots log → .added d ∈ log
  | e :: log, h => by
      cases e with
      | added d' =>
          rcases Finset.mem_insert.mp h with rfl | h
          · exact List.mem_cons_self
          · exact List.mem_cons_of_mem _ (added_of_slots h)
      | childDone d' => exact List.mem_cons_of_mem _ (added_of_slots (Finset.mem_of_mem_erase h))
      | _ => exact List.mem_cons_of_mem _ (added_of_slots h)

theorem opened_of_running : ∀ {log : List Event}, d ∈ running log → .opened d ∈ log
  | e :: log, h => by
      cases e with
      | opened d' =>
          rcases Finset.mem_insert.mp h with rfl | h
          · exact List.mem_cons_self
          · exact List.mem_cons_of_mem _ (opened_of_running h)
      | finished d' => exact List.mem_cons_of_mem _ (opened_of_running (Finset.mem_of_mem_erase h))
      | _ => exact List.mem_cons_of_mem _ (opened_of_running h)

/-- A slot is there until its `Done`. -/
theorem slots_or_done : ∀ {log : List Event}, .added d ∈ log →
    d ∈ slots log ∨ .childDone d ∈ log
  | e :: log, h => by
      rcases List.mem_cons.mp h with rfl | h
      · exact Or.inl (Finset.mem_insert_self _ _)
      · rcases slots_or_done h with hs | hs
        · cases e with
          | added d' => exact Or.inl (Finset.mem_insert_of_mem hs)
          | childDone d' =>
              by_cases hd : d = d'
              · exact Or.inr (hd ▸ List.mem_cons_self)
              · exact Or.inl (Finset.mem_erase.mpr ⟨hd, hs⟩)
          | _ => exact Or.inl hs
        · exact Or.inr (List.mem_cons_of_mem _ hs)

/-- A child runs until it has finished. -/
theorem running_or_finished : ∀ {log : List Event}, .opened d ∈ log →
    d ∈ running log ∨ .finished d ∈ log
  | e :: log, h => by
      rcases List.mem_cons.mp h with rfl | h
      · exact Or.inl (Finset.mem_insert_self _ _)
      · rcases running_or_finished h with hs | hs
        · cases e with
          | opened d' => exact Or.inl (Finset.mem_insert_of_mem hs)
          | finished d' =>
              by_cases hd : d = d'
              · exact Or.inr (hd ▸ List.mem_cons_self)
              · exact Or.inl (Finset.mem_erase.mpr ⟨hd, hs⟩)
          | _ => exact Or.inl hs
        · exact Or.inr (List.mem_cons_of_mem _ hs)

theorem opened_of_finished (h : Pool.Each Event.Justified log) (hd : .finished d ∈ log) :
    .opened d ∈ log := by
  obtain ⟨pre, post, rfl, hj⟩ := h.mem hd
  exact List.mem_append_right _ (List.mem_cons_of_mem _ (opened_of_running hj))

theorem added_of_opened (h : Pool.Each Event.Justified log) (hd : .opened d ∈ log) :
    .added d ∈ log := by
  obtain ⟨pre, post, rfl, hj⟩ := h.mem hd
  exact List.mem_append_right _ (List.mem_cons_of_mem _ hj.1)

theorem ended_of_done (h : Pool.Each Event.Justified log) (hd : .childDone d ∈ log) :
    .notOpened d ∈ log ∨ .finished d ∈ log := by
  obtain ⟨pre, post, rfl, hj⟩ := h.mem hd
  exact hj.2.imp (fun h => List.mem_append_right _ (List.mem_cons_of_mem _ h))
    (fun h => List.mem_append_right _ (List.mem_cons_of_mem _ h))

theorem not_notOpened_of_opened : ∀ {log : List Event}, Pool.Each Event.Justified log →
    .opened d ∈ log → .notOpened d ∉ log
  | e :: log, h, hd, hn => by
      rcases List.mem_cons.mp hd with rfl | hd' <;> rcases List.mem_cons.mp hn with heq | hn'
      · cases heq
      · exact h.1.2.2 hn'
      · subst heq
        exact h.1 hd'
      · exact not_notOpened_of_opened h.2 hd' hn'

theorem not_done_of_slots : ∀ {log : List Event}, Pool.Each Event.Justified log →
    d ∈ slots log → .childDone d ∉ log
  | e :: log, h, hd, hin => by
      have hnot : .childDone d ∈ log → d ∈ slots log → False := fun hin hd =>
        not_done_of_slots h.2 hd hin
      cases e with
      | added d' =>
          have hin' : .childDone d ∈ log := (List.mem_cons.mp hin).resolve_left (by simp)
          rcases Finset.mem_insert.mp hd with rfl | hd'
          · exact h.1.1 _ hin' rfl
          · exact hnot hin' hd'
      | childDone d' =>
          obtain ⟨hne, hd⟩ := Finset.mem_erase.mp hd
          exact hnot ((List.mem_cons.mp hin).resolve_left (by simpa using hne)) hd
      | _ => exact hnot ((List.mem_cons.mp hin).resolve_left (by simp)) hd

theorem not_finished_of_running : ∀ {log : List Event}, Pool.Each Event.Justified log →
    d ∈ running log → .finished d ∉ log
  | e :: log, h, hd, hin => by
      have hnot : .finished d ∈ log → d ∈ running log → False := fun hin hd =>
        not_finished_of_running h.2 hd hin
      cases e with
      | opened d' =>
          have hin' : .finished d ∈ log := (List.mem_cons.mp hin).resolve_left (by simp)
          rcases Finset.mem_insert.mp hd with rfl | hd'
          · exact h.1.2.1 (opened_of_finished h.2 hin')
          · exact hnot hin' hd'
      | finished d' =>
          obtain ⟨hne, hd⟩ := Finset.mem_erase.mp hd
          exact hnot ((List.mem_cons.mp hin).resolve_left (by simpa using hne)) hd
      | _ => exact hnot ((List.mem_cons.mp hin).resolve_left (by simp)) hd

/-- A running child has a slot. -/
theorem running_subset_slots (h : Pool.Each Event.Justified log) : running log ⊆ slots log := by
  intro d hd
  have hopened := opened_of_running hd
  refine (slots_or_done (added_of_opened h hopened)).resolve_right fun hdone => ?_
  rcases ended_of_done h hdone with hn | hf
  · exact not_notOpened_of_opened h hopened hn
  · exact not_finished_of_running h hd hf

theorem not_added_of_refused : ∀ {log : List Event}, Pool.Each Event.Justified log →
    .refused d ∈ log → .added d ∉ log
  | e :: log, h, hr, ha => by
      rcases List.mem_cons.mp hr with rfl | hr' <;> rcases List.mem_cons.mp ha with heq | ha'
      · cases heq
      · exact h.1.1 _ ha' rfl
      · subst heq
        exact h.1.1 _ hr' rfl
      · exact not_added_of_refused h.2 hr' ha'

theorem tunnelClosed_of_refused {ret : DialReturn} : ∀ {log : List Event},
    Pool.Each Event.Justified log → .refused d ∈ log → .dialReturned d ret ∈ log →
    ret = tunnelClosed
  | e :: log, h, hr, hd => by
      rcases List.mem_cons.mp hr with rfl | hr' <;> rcases List.mem_cons.mp hd with heq | hd'
      · cases heq
      · exact absurd rfl (h.1.1 _ hd')
      · subst heq
        rcases h.1 with ha | ⟨-, hret⟩ | ⟨hn, -⟩
        · exact absurd ha (not_added_of_refused h.2 hr')
        · exact hret
        · exact absurd hr' hn
      · exact tunnelClosed_of_refused h.2 hr' hd'

theorem closing_unique {k k' : CallID} : ∀ {log : List Event}, Pool.Each Event.Justified log →
    .closing k ∈ log → .closing k' ∈ log → k = k'
  | e :: log, h, hk, hk' => by
      rcases List.mem_cons.mp hk with rfl | h1 <;> rcases List.mem_cons.mp hk' with heq | h2
      · cases heq
        rfl
      · exact absurd h2 (h.1 _)
      · subst heq
        exact absurd h1 (h.1 _)
      · exact closing_unique h.2 h1 h2

end Log

/-! ## The invariant -/

/-- What the result of an establishment says. -/
def Established.Known (log : List Event) (d : CallID) : Established → Prop
  | .tunnel => .opened d ∈ log
  | .failed _ => .notOpened d ∈ log

structure CallInv (s : ReusableState) (H : Token → Prop) : Prop where
  fresh : ∀ d, H (.call d) → d < s.calls ∧ ∀ e ∈ s.log, e.call ≠ some d
  bound : ∀ e ∈ s.log, ∀ d, e.call = some d → d < s.calls

structure DialInv (s : ReusableState) (H : Token → Prop) : Prop where
  slot : ∀ d, H (.slot d) ↔ d ∈ slots s.log
  children : s.children = (slots s.log).card
  proxy : ∀ d, H (.proxy d) → .added d ∈ s.log ∧ .opened d ∉ s.log ∧ .notOpened d ∉ s.log
  child : ∀ d, H (.child d) ↔ d ∈ running s.log
  inner : ∀ d, (s.dial d).innerDone.closed = true ↔ .finished d ∈ s.log
  results : ∀ d, (s.dial d).resCh.closed = false ∧ ∀ res ∈ (s.dial d).resCh.buf, res.Known s.log d

structure CloseInv (s : ReusableState) (H : Token → Prop) : Prop where
  conn : H .conn → s.closing = true ∧ ∀ err, .connClosed err ∉ s.log
  done : H .done → s.closing = true ∧ s.done.closed = false
  closed : s.done.closed = true ↔ .doneClosed ∈ s.log
  closing : s.closing = true ↔ ∃ k, .closing k ∈ s.log
  drained : ∀ err, .connClosed err ∈ s.log → s.closing = true ∧ s.children = 0

structure LifeInv (s : ReusableState) (H : Token → Prop) : Prop where
  call : CallInv s H
  dial : DialInv s H
  close : CloseInv s H
  justified : Pool.Each Event.Justified s.log
  panic : s.panic = none

/-- What holds of an operation that is going to be performed. -/
def Op.Holds (s : ReusableState) (t : Tid) : Op → Prop
  | .dialContext d _ | .accept d | .establish d | .select d | .drain d => t = .dial d
  | .startWatch d => t = .dial d ∧ .opened d ∈ s.log
  | .awaitInner d => t = .watch d ∧ .opened d ∈ s.log
  | .childrenDone d => (t = .dial d ∨ t = .watch d) ∧
      (.notOpened d ∈ s.log ∨ .finished d ∈ s.log)
  | .innerDial d => .added d ∈ s.log
  | .dialReturn d ret => .added d ∈ s.log ∨ (.refused d ∈ s.log ∧ ret = tunnelClosed)
  | .sendResult d res => res.Known s.log d
  | .awaitDone k => s.closing = true ∧ .closing k ∉ s.log
  | .tunnelCancel k | .childrenWait k => .closing k ∈ s.log
  | .connClose k => .closing k ∈ s.log ∧ s.children = 0
  | .closeDone k err => .closing k ∈ s.log ∧ .connClosed err ∈ s.log
  | .closeReturn k err => s.closing = true ∧ .doneClosed ∈ s.log ∧
      ((.closing k ∈ s.log ∧ .connClosed err ∈ s.log) ∨ (.closing k ∉ s.log ∧ err = none))
  | _ => True

/-! ## Frames -/

section Frames

variable {s s₁ : ReusableState} {H H' : Token → Prop} {t : Tid} {o : Op} {e : Event}

theorem Op.Holds.mono (h : o.Holds s t) (hlog : s.log ⊆ s₁.log)
    (hclosing : s.closing = true →
      s₁.closing = true ∧ ∀ k, .closing k ∈ s₁.log → .closing k ∈ s.log)
    (hchildren : (∃ k, .closing k ∈ s.log) → s.children = 0 → s₁.children = 0) :
    o.Holds s₁ t := by
  cases o with
  | startWatch d => exact ⟨h.1, hlog h.2⟩
  | awaitInner d => exact ⟨h.1, hlog h.2⟩
  | childrenDone d => exact ⟨h.1, h.2.imp (fun h => hlog h) fun h => hlog h⟩
  | innerDial d => exact hlog h
  | dialReturn d ret => exact h.imp (fun h => hlog h) fun h => ⟨hlog h.1, h.2⟩
  | sendResult d res => cases res <;> exact hlog h
  | awaitDone k => exact ⟨(hclosing h.1).1, fun hin => h.2 ((hclosing h.1).2 k hin)⟩
  | tunnelCancel k => exact hlog h
  | childrenWait k => exact hlog h
  | connClose k => exact ⟨hlog h.1, hchildren ⟨k, h.1⟩ h.2⟩
  | closeDone k err => exact ⟨hlog h.1, hlog h.2⟩
  | closeReturn k err =>
      refine ⟨(hclosing h.1).1, hlog h.2.1, h.2.2.imp (fun h => ⟨hlog h.1, hlog h.2⟩) ?_⟩
      exact fun h' => ⟨fun hin => h'.1 ((hclosing h.1).2 k hin), h'.2⟩
  | _ => exact h

theorem CallInv.record (h : CallInv s H) (hlog : s₁.log = e :: s.log) (hcalls : s₁.calls = s.calls)
    (hH : ∀ d, H' (.call d) → H (.call d))
    (he : ∀ d, e.call = some d → d < s.calls ∧ ¬ H' (.call d)) : CallInv s₁ H' := by
  refine ⟨fun d hd => ?_, fun x hx d hd => ?_⟩
  · obtain ⟨hlt, hnot⟩ := h.fresh d (hH d hd)
    rw [hlog, hcalls]
    refine ⟨hlt, fun x hx heq => ?_⟩
    rcases List.mem_cons.mp hx with rfl | hx
    · exact (he d heq).2 hd
    · exact hnot x hx heq
  · rw [hcalls]
    rw [hlog] at hx
    rcases List.mem_cons.mp hx with rfl | hx
    · exact (he d hd).1
    · exact h.bound x hx d hd

/-- A call with an event has been accepted. -/
theorem CallInv.known (h : CallInv s H) {d : CallID} (he : e ∈ s.log) (hd : e.call = some d) :
    d < s.calls ∧ ¬ H (.call d) :=
  ⟨h.bound e he d hd, fun hH => (h.fresh d hH).2 e he hd⟩

theorem DialInv.record (h : DialInv s H) (hlog : s₁.log = e :: s.log)
    (hslot : ∀ d, H' (.slot d) ↔ d ∈ slots (e :: s.log))
    (hchildren : s₁.children = (slots (e :: s.log)).card)
    (hproxy : ∀ d, H' (.proxy d) → .added d ∈ e :: s.log ∧ .opened d ∉ e :: s.log ∧
      .notOpened d ∉ e :: s.log)
    (hchild : ∀ d, H' (.child d) ↔ d ∈ running (e :: s.log))
    (hinner : ∀ d, (s₁.dial d).innerDone.closed = true ↔ .finished d ∈ e :: s.log)
    (hres : ∀ d, (s₁.dial d).resCh = (s.dial d).resCh) : DialInv s₁ H' := by
  refine ⟨hlog ▸ hslot, hlog ▸ hchildren, hlog ▸ hproxy, hlog ▸ hchild, hlog ▸ hinner, fun d => ?_⟩
  rw [hres, hlog]
  refine ⟨(h.results d).1, fun res hin => ?_⟩
  have := (h.results d).2 res hin
  cases res <;> exact List.mem_cons_of_mem _ this

/-- Events that neither take nor give a token of a dial. -/
def Event.aside : Event → Bool
  | .refused _ | .dialReturned _ _ | .closing _ | .connClosed _ | .doneClosed => true
  | .closeReturned _ _ => true
  | _ => false

theorem DialInv.aside (h : DialInv s H) (hlog : s₁.log = e :: s.log) (he : e.aside = true)
    (hdial : s₁.dial = s.dial) (hchildren : s₁.children = s.children)
    (hH : ∀ d, (H' (.slot d) ↔ H (.slot d)) ∧ (H' (.proxy d) ↔ H (.proxy d)) ∧
      (H' (.child d) ↔ H (.child d))) : DialInv s₁ H' := by
  have hslots : slots (e :: s.log) = slots s.log ∧ running (e :: s.log) = running s.log := by
    cases e <;> first | exact ⟨rfl, rfl⟩ | cases he
  have hmem : ∀ x : Event, x.aside = false → (x ∈ e :: s.log ↔ x ∈ s.log) := by
    intro x hx
    rw [List.mem_cons]
    refine or_iff_right ?_
    rintro rfl
    rw [he] at hx
    cases hx
  refine h.record hlog (fun d => ?_) ?_ (fun d hd => ?_) (fun d => ?_) (fun d => ?_) fun d => ?_
  · rw [(hH d).1, hslots.1]
    exact h.slot d
  · rw [hchildren, hslots.1]
    exact h.children
  · rw [hmem _ rfl, hmem _ rfl, hmem _ rfl]
    exact h.proxy d ((hH d).2.1.mp hd)
  · rw [(hH d).2.2, hslots.2]
    exact h.child d
  · rw [hdial, hmem _ rfl]
    exact h.inner d
  · rw [hdial]

/-- An event of a dial says nothing about `Close`. -/
theorem CloseInv.aside (h : CloseInv s H) (hlog : s₁.log = e :: s.log) (he : e.ofClose = false)
    (hclosing : s₁.closing = s.closing) (hdone : s₁.done = s.done)
    (hchildren : s.closing = true → s.children = 0 → s₁.children = 0)
    (hH : (H' .conn → H .conn) ∧ (H' .done → H .done)) : CloseInv s₁ H' := by
  have hmem : ∀ x : Event, x.ofClose = true → (x ∈ s₁.log ↔ x ∈ s.log) := by
    intro x hx
    rw [hlog, List.mem_cons]
    refine or_iff_right ?_
    rintro rfl
    rw [he] at hx
    cases hx
  refine ⟨fun hc => ?_, fun hc => ?_, ?_, ?_, fun err hc => ?_⟩
  · obtain ⟨h1, h2⟩ := h.conn (hH.1 hc)
    exact ⟨hclosing ▸ h1, fun err hin => h2 err ((hmem _ rfl).mp hin)⟩
  · rw [hclosing, hdone]
    exact h.done (hH.2 hc)
  · rw [hdone, hmem _ rfl]
    exact h.closed
  · rw [hclosing, h.closing]
    exact exists_congr fun k => (hmem _ rfl).symm
  · obtain ⟨h1, h2⟩ := h.drained err ((hmem _ rfl).mp hc)
    exact ⟨hclosing ▸ h1, hchildren h1 h2⟩

/-- Nothing is recorded and no token changes hands. -/
theorem LifeInv.quiet (h : LifeInv s H) (hlog : s₁.log = s.log) (hclosing : s₁.closing = s.closing)
    (hchildren : s₁.children = s.children) (hdone : s₁.done = s.done)
    (hcalls : s.calls ≤ s₁.calls) (hpanic : s₁.panic = s.panic)
    (hinner : ∀ d, (s₁.dial d).innerDone = (s.dial d).innerDone)
    (hresults : ∀ d, (s₁.dial d).resCh.closed = false ∧
      ∀ res ∈ (s₁.dial d).resCh.buf, res.Known s.log d) : LifeInv s₁ H := by
  obtain ⟨hcall, hdial, hclose, hjust, hp⟩ := h
  refine ⟨⟨fun d hd => ?_, fun e he d hd => ?_⟩, ⟨?_, ?_, ?_, ?_, fun d => ?_, fun d => ?_⟩,
    ⟨?_, ?_, ?_, ?_, ?_⟩, ?_, hpanic.trans hp⟩
  · rw [hlog]
    exact ⟨Nat.lt_of_lt_of_le (hcall.fresh d hd).1 hcalls, (hcall.fresh d hd).2⟩
  · rw [hlog] at he
    exact Nat.lt_of_lt_of_le (hcall.bound e he d hd) hcalls
  · rw [hlog]
    exact hdial.slot
  · rw [hlog, hchildren]
    exact hdial.children
  · rw [hlog]
    exact hdial.proxy
  · rw [hlog]
    exact hdial.child
  · rw [hlog, hinner]
    exact hdial.inner d
  · rw [hlog]
    exact hresults d
  · rw [hlog, hclosing]
    exact hclose.conn
  · rw [hclosing, hdone]
    exact hclose.done
  · rw [hlog, hdone]
    exact hclose.closed
  · rw [hlog, hclosing]
    exact hclose.closing
  · rw [hlog, hclosing, hchildren]
    exact hclose.drained
  · rw [hlog]
    exact hjust

end Frames

/-! ## Steps -/

/-- The tokens after an operation that brings in `new`. -/
def after (H : Token → Prop) (op : Op) (new : List Token) (k : Token) : Prop :=
  k ∈ new ∨ (H k ∧ k ∉ op.tokens)

theorem after_eq {H : Token → Prop} {op : Op} {new : List Token} (hown : ∀ k ∈ op.tokens, H k)
    (hnew : ∀ k, k ∈ new ↔ k ∈ op.tokens) : after H op new = H := by
  funext k
  refine propext ⟨?_, fun hk => ?_⟩
  · rintro (hk | ⟨hk, -⟩)
    · exact hown k ((hnew k).mp hk)
    · exact hk
  · by_cases hop : k ∈ op.tokens
    · exact Or.inl ((hnew k).mpr hop)
    · exact Or.inr ⟨hk, hop⟩

section Records

variable {s : ReusableState} {H : Token → Prop} {d k : CallID}

/-- A call is refused, or `DialContext` returns. -/
theorem LifeInv.returned (h : LifeInv s H) {op : Op} {e : Event}
    (he : e.aside = true ∧ e.ofClose = false ∧ e.call = some d) (hd : d < s.calls)
    (hop : ∀ x ∈ op.tokens, x = .call d) (hcall : H (.call d) → .call d ∈ op.tokens)
    (hj : e.Justified s.log) : LifeInv (s.record e) (after H op []) := by
  have hH : ∀ x, x ≠ .call d → (after H op [] x ↔ H x) := by
    intro x hx
    have : x ∉ op.tokens := fun hin => hx (hop x hin)
    simp [after, this]
  refine ⟨h.call.record rfl rfl (fun x hx => ?_) (fun x hx => ?_),
    h.dial.aside rfl he.1 rfl rfl fun x => ⟨hH _ (by simp), hH _ (by simp), hH _ (by simp)⟩,
    h.close.aside rfl he.2.1 rfl rfl (fun _ => id)
      ⟨(hH _ (by simp)).mp, (hH _ (by simp)).mp⟩, ⟨hj, h.justified⟩, h.panic⟩
  · exact hx.elim (fun hx => nomatch hx) And.left
  · rw [he.2.2] at hx
    cases hx
    exact ⟨hd, fun hx => hx.elim (fun hx => nomatch hx) fun hx => hx.2 (hcall hx.1)⟩

theorem LifeInv.added (h : LifeInv s H) (hd : H (.call d)) (hclosing : s.closing = false) :
    LifeInv ({ s with children := s.children + 1 }.record (.added d))
      (after H (.accept d) [.slot d, .proxy d]) := by
  obtain ⟨hlt, hfresh⟩ := h.call.fresh d hd
  have hslot : d ∉ slots s.log := fun hin => hfresh _ (added_of_slots hin) rfl
  have hnot : ∀ k, .closing k ∉ s.log := by
    intro k hin
    rw [h.close.closing.mpr ⟨k, hin⟩] at hclosing
    cases hclosing
  refine ⟨h.call.record rfl rfl (fun x hx => ?_) (fun x hx => ?_),
    h.dial.record rfl (fun x => ?_) ?_ (fun x hx => ?_) (fun x => ?_) (fun x => ?_) (fun _ => rfl),
    h.close.aside rfl rfl rfl rfl (fun hc => ?_) ⟨fun hx => ?_, fun hx => ?_⟩,
    ⟨⟨hfresh, hnot⟩, h.justified⟩, h.panic⟩
  · exact (hx.resolve_left (by simp)).1
  · cases hx
    exact ⟨hlt, by simp [after, Op.tokens]⟩
  · have := h.dial.slot x
    simp [after, Op.tokens, slots, this]
  · have := h.dial.children
    simp [slots, Finset.card_insert_of_notMem hslot, this]
  · rcases hx with hx | hx
    · obtain rfl : x = d := by simpa using hx
      refine ⟨List.mem_cons_self, ?_, ?_⟩
      · simpa using fun hin => hfresh _ hin rfl
      · simpa using fun hin => hfresh _ hin rfl
    · obtain ⟨h1, h2, h3⟩ := h.dial.proxy x hx.1
      exact ⟨List.mem_cons_of_mem _ h1, by simpa using h2, by simpa using h3⟩
  · have := h.dial.child x
    simpa [after, Op.tokens, running] using this
  · simpa using h.dial.inner x
  · rw [hclosing] at hc
    cases hc
  · simpa [after, Op.tokens] using hx
  · simpa [after, Op.tokens] using hx

/-- An event of a dial that was accepted leaves the calls and `Close` alone. -/
theorem LifeInv.dialed {s₁ : ReusableState} {H' : Token → Prop} (h : LifeInv s H) {e e' : Event}
    (he' : e' ∈ s.log ∧ e'.call = some d) (he : e.ofClose = false ∧ e.call = some d)
    (hlog : s₁.log = e :: s.log) (hcalls : s₁.calls = s.calls) (hclosing : s₁.closing = s.closing)
    (hdone : s₁.done = s.done) (hpanic : s₁.panic = s.panic)
    (hchildren : s.closing = true → s.children = 0 → s₁.children = 0)
    (hH : ∀ k, k = .conn ∨ k = .done ∨ (∃ x, k = .call x) → H' k → H k)
    (hdial : DialInv s₁ H') (hj : e.Justified s.log) : LifeInv s₁ H' := by
  refine ⟨h.call.record hlog hcalls (fun x hx => hH _ (Or.inr (Or.inr ⟨x, rfl⟩)) hx)
    (fun x hx => ?_), hdial, h.close.aside hlog he.1 hclosing hdone hchildren
    ⟨hH _ (Or.inl rfl), hH _ (Or.inr (Or.inl rfl))⟩, ?_, hpanic.trans h.panic⟩
  · rw [he.2] at hx
    cases hx
    obtain ⟨h1, h2⟩ := h.call.known he'.1 he'.2
    exact ⟨h1, fun hx => h2 (hH _ (Or.inr (Or.inr ⟨_, rfl⟩)) hx)⟩
  · rw [hlog]
    exact ⟨hj, h.justified⟩

theorem LifeInv.childDone (h : LifeInv s H) (hd : H (.slot d))
    (hended : .notOpened d ∈ s.log ∨ .finished d ∈ s.log) :
    0 < s.children ∧ LifeInv ({ s with children := s.children - 1 }.record (.childDone d))
      (after H (.childrenDone d) []) := by
  have hslot := (h.dial.slot d).mp hd
  have hpos : 0 < (slots s.log).card := Finset.card_pos.mpr ⟨d, hslot⟩
  have hchildren := h.dial.children
  refine ⟨by omega, h.dialed ⟨added_of_slots hslot, rfl⟩ ⟨rfl, rfl⟩ rfl rfl rfl rfl rfl
    (fun _ hz => by omega) (fun k _ hk => ?_) (h.dial.record rfl (fun x => ?_) ?_ (fun x hx => ?_)
      (fun x => ?_) (fun x => ?_) fun _ => rfl) ⟨hslot, hended⟩⟩
  · exact (hk.resolve_left (by simp)).1
  · have := h.dial.slot x
    simp [after, Op.tokens, slots, this, and_comm]
  · simp only [slots, Finset.card_erase_of_mem hslot, ReusableState.record_children]
    omega
  · obtain ⟨h1, h2, h3⟩ := h.dial.proxy x (hx.resolve_left (by simp)).1
    exact ⟨List.mem_cons_of_mem _ h1, by simpa using h2, by simpa using h3⟩
  · have := h.dial.child x
    simpa [after, Op.tokens, running] using this
  · simpa using h.dial.inner x

theorem LifeInv.opened (h : LifeInv s H) (hd : H (.proxy d)) :
    LifeInv (s.record (.opened d)) (after H (.proxy d) [.child d]) := by
  obtain ⟨hadded, hopened, hnot⟩ := h.dial.proxy d hd
  refine h.dialed ⟨hadded, rfl⟩ ⟨rfl, rfl⟩ rfl rfl rfl rfl rfl (fun _ => id) (fun k hk hk' => ?_)
    (h.dial.record rfl (fun x => ?_) h.dial.children (fun x hx => ?_) (fun x => ?_) (fun x => ?_)
      fun _ => rfl) ⟨hadded, hopened, hnot⟩
  · rcases hk' with hk' | hk'
    · rcases hk with rfl | rfl | ⟨x, rfl⟩ <;> simp at hk'
    · exact hk'.1
  · have := h.dial.slot x
    simpa [after, Op.tokens, slots] using this
  · obtain ⟨hx, hne⟩ := hx.resolve_left (by simp)
    obtain ⟨h1, h2, h3⟩ := h.dial.proxy x hx
    refine ⟨List.mem_cons_of_mem _ h1, ?_, by simpa using h3⟩
    simp only [Op.tokens, List.mem_singleton, Token.proxy.injEq] at hne
    simpa [hne] using h2
  · have := h.dial.child x
    simp [after, Op.tokens, running, this]
  · simpa using h.dial.inner x

theorem LifeInv.notOpened (h : LifeInv s H) (hd : H (.proxy d)) :
    LifeInv (s.record (.notOpened d)) (after H (.proxy d) []) := by
  obtain ⟨hadded, hopened, hnot⟩ := h.dial.proxy d hd
  refine h.dialed ⟨hadded, rfl⟩ ⟨rfl, rfl⟩ rfl rfl rfl rfl rfl (fun _ => id) (fun k hk hk' => ?_)
    (h.dial.record rfl (fun x => ?_) h.dial.children (fun x hx => ?_) (fun x => ?_) (fun x => ?_)
      fun _ => rfl) hopened
  · exact (hk'.resolve_left (by simp)).1
  · have := h.dial.slot x
    simpa [after, Op.tokens, slots] using this
  · obtain ⟨hx, hne⟩ := hx.resolve_left (by simp)
    obtain ⟨h1, h2, h3⟩ := h.dial.proxy x hx
    refine ⟨List.mem_cons_of_mem _ h1, by simpa using h2, ?_⟩
    simp only [Op.tokens, List.mem_singleton, Token.proxy.injEq] at hne
    simpa [hne] using h3
  · have := h.dial.child x
    simpa [after, Op.tokens, running] using this
  · simpa using h.dial.inner x

theorem LifeInv.finished (h : LifeInv s H) (hd : H (.child d)) :
    (s.dial d).innerDone.closed = false ∧
      LifeInv ((s.setDial d { s.dial d with
          innerDone := { (s.dial d).innerDone with closed := true } }).record (.finished d))
        (after H (.closeInner d) []) := by
  have hrun := (h.dial.child d).mp hd
  have hopen := not_finished_of_running h.justified hrun
  refine ⟨Bool.eq_false_iff.mpr fun hc => hopen ((h.dial.inner d).mp hc),
    h.dialed ⟨opened_of_running hrun, rfl⟩ ⟨rfl, rfl⟩ rfl rfl rfl rfl rfl (fun _ => id)
      (fun k hk hk' => ?_) (h.dial.record rfl (fun x => ?_) h.dial.children (fun x hx => ?_)
        (fun x => ?_) (fun x => ?_) (fun x => ?_)) hrun⟩
  · exact (hk'.resolve_left (by simp)).1
  · have := h.dial.slot x
    simpa [after, Op.tokens, slots] using this
  · obtain ⟨hx, -⟩ := hx.resolve_left (by simp)
    obtain ⟨h1, h2, h3⟩ := h.dial.proxy x hx
    exact ⟨List.mem_cons_of_mem _ h1, by simpa using h2, by simpa using h3⟩
  · have := h.dial.child x
    simp [after, Op.tokens, running, this, and_comm]
  · by_cases hx : x = d
    · subst hx
      simp
    · have := h.dial.inner x
      simpa [Function.update_of_ne hx, hx] using this
  · by_cases hx : x = d
    · subst hx
      simp
    · simp [Function.update_of_ne hx]

theorem LifeInv.closing (h : LifeInv s H) (hk : H (.call k)) (hopen : s.closing = false) :
    LifeInv ({ s with closing := true }.record (.closing k))
      (after H (.close k) [.conn, .done]) := by
  obtain ⟨hlt, hfresh⟩ := h.call.fresh k hk
  have hnot : ∀ x, .closing x ∉ s.log := by
    intro x hin
    rw [h.close.closing.mpr ⟨x, hin⟩] at hopen
    cases hopen
  have hconn : ∀ err, .connClosed err ∉ s.log := by
    intro err hin
    rw [(h.close.drained err hin).1] at hopen
    cases hopen
  have hdone : s.done.closed = false := by
    refine Bool.eq_false_iff.mpr fun hc => ?_
    obtain ⟨pre, post, heq, hj⟩ := h.justified.mem (h.close.closed.mp hc)
    obtain ⟨err, hin⟩ := hj.2
    refine hconn err ?_
    rw [heq]
    exact List.mem_append_right _ (List.mem_cons_of_mem _ hin)
  refine ⟨h.call.record rfl rfl (fun x hx => ?_) (fun x hx => ?_),
    h.dial.aside rfl rfl rfl rfl fun x => ?_, ⟨fun _ => ⟨rfl, by simpa using hconn⟩,
      fun _ => ⟨rfl, hdone⟩, ?_, ?_, fun err hin => ?_⟩, ⟨hnot, h.justified⟩, h.panic⟩
  · exact (hx.resolve_left (by simp)).1
  · cases hx
    exact ⟨hlt, by simp [after, Op.tokens]⟩
  · simp [after, Op.tokens]
  · simpa using h.close.closed
  · simp
  · exact absurd (by simpa using hin) (hconn err)

theorem LifeInv.connClosed (h : LifeInv s H) (hconn : H .conn) (hdone : H .done)
    {err : Option String} (hclosing : .closing k ∈ s.log) (hzero : s.children = 0) :
    LifeInv (s.record (.connClosed err)) (after H (.connClose k) [.done]) := by
  obtain ⟨hc, hnot⟩ := h.close.conn hconn
  have hslots : slots s.log = ∅ := by
    have := h.dial.children
    exact Finset.card_eq_zero.mp (by omega)
  refine ⟨h.call.record rfl rfl (fun x hx => ?_) (fun x hx => nomatch hx),
    h.dial.aside rfl rfl rfl rfl fun x => ?_, ⟨fun hx => ?_, fun hx => ?_, ?_, ?_, fun _ _ => ?_⟩,
    ⟨⟨⟨k, hclosing⟩, hnot, hslots⟩, h.justified⟩, h.panic⟩
  · exact (hx.resolve_left (by simp)).1
  · simp [after, Op.tokens]
  · simp [after, Op.tokens] at hx
  · exact h.close.done hdone
  · simpa using h.close.closed
  · simpa using h.close.closing
  · exact ⟨hc, hzero⟩

theorem LifeInv.doneClosed (h : LifeInv s H) (hdone : H .done) {err : Option String}
    (hconn : .connClosed err ∈ s.log) :
    s.done.closed = false ∧
      LifeInv ({ s with done := { s.done with closed := true } }.record .doneClosed)
        (after H (.closeDone k err) []) := by
  obtain ⟨hc, hopen⟩ := h.close.done hdone
  have hnot : .doneClosed ∉ s.log := by
    intro hin
    rw [h.close.closed.mpr hin] at hopen
    cases hopen
  refine ⟨hopen, h.call.record rfl rfl (fun x hx => ?_) (fun x hx => nomatch hx),
    h.dial.aside rfl rfl rfl rfl fun x => ?_, ⟨fun hx => ?_, fun hx => ?_, ?_, ?_, fun x hx => ?_⟩,
    ⟨⟨hnot, err, hconn⟩, h.justified⟩, h.panic⟩
  · exact (hx.resolve_left (by simp)).1
  · simp [after, Op.tokens]
  · obtain ⟨h1, h2⟩ := h.close.conn (hx.resolve_left (by simp)).1
    exact ⟨h1, by simpa using h2⟩
  · simp [after, Op.tokens] at hx
  · simp
  · simpa using h.close.closing
  · exact h.close.drained x (by simpa using hx)

theorem LifeInv.closeReturned (h : LifeInv s H) {err : Option String}
    (hj : (Event.closeReturned k err).Justified s.log) :
    LifeInv (s.record (.closeReturned k err)) (after H (.closeReturn k err) []) := by
  refine ⟨h.call.record rfl rfl (fun x hx => ?_) (fun x hx => nomatch hx),
    h.dial.aside rfl rfl rfl rfl fun x => ?_, ⟨fun hx => ?_, fun hx => ?_, ?_, ?_, fun x hx => ?_⟩,
    ⟨hj, h.justified⟩, h.panic⟩
  · exact (hx.resolve_left (by simp)).1
  · simp [after, Op.tokens]
  · obtain ⟨h1, h2⟩ := h.close.conn (hx.resolve_left (by simp)).1
    exact ⟨h1, by simpa using h2⟩
  · exact h.close.done (hx.resolve_left (by simp)).1
  · simpa using h.close.closed
  · simpa using h.close.closing
  · exact h.close.drained x (by simpa using hx)

end Records

/-- What one operation leaves behind. -/
structure Kept (s s₁ : ReusableState) (H : Token → Prop) (t : Tid) (op : Op) (ops : List Op)
    (start : Option (Tid × List Op)) : Prop where
  nodup : (ops.flatMap Op.tokens ++ Pool.startTokens Op.tokens start).Nodup
  free : ∀ k ∈ ops.flatMap Op.tokens ++ Pool.startTokens Op.tokens start, k ∈ op.tokens ∨ ¬ H k
  inv : LifeInv s₁ (after H op (ops.flatMap Op.tokens ++ Pool.startTokens Op.tokens start))
  stable : ∀ t o, Op.Holds s t o → Op.Holds s₁ t o
  holds : ∀ o ∈ ops, o.Holds s₁ t
  started : System.StartOk (Op.Holds s₁) start

section Steps

variable {s s₁ : ReusableState} {H : Token → Prop} {t : Tid} {c : Choice} {op : Op} {ops : List Op}
  {start : Option (Tid × List Op)}

/-- The tokens stay with what comes in place of the operation. -/
theorem Kept.move (hown : ∀ k ∈ op.tokens, H k)
    (htok : ops.flatMap Op.tokens ++ Pool.startTokens Op.tokens start = op.tokens)
    (hnd : op.tokens.Nodup) (h : LifeInv s₁ H) (hlog : s₁.log = s.log)
    (hclosing : s₁.closing = s.closing) (hchildren : s₁.children = s.children)
    (hops : ∀ o ∈ ops, o.Holds s₁ t) (hstart : System.StartOk (Op.Holds s₁) start) :
    Kept s s₁ H t op ops start := by
  refine ⟨htok ▸ hnd, fun k hk => Or.inl (htok ▸ hk), ?_, fun t o ho => ?_, hops, hstart⟩
  · rw [htok, after_eq hown fun _ => Iff.rfl]
    exact h
  · refine ho.mono (by rw [hlog]; exact List.Subset.refl _) ?_ ?_
    · rw [hlog, hclosing]
      exact fun h => ⟨h, fun _ => id⟩
    · rw [hchildren]
      exact fun _ => id

/-- Something is recorded, and the new tokens are not those of others. -/
theorem Kept.record (e : Event) (new : List Token)
    (htok : ops.flatMap Op.tokens ++ Pool.startTokens Op.tokens start = new) (hnd : new.Nodup)
    (hfree : ∀ k ∈ new, k ∈ op.tokens ∨ ¬ H k) (h : LifeInv s₁ (after H op new))
    (hlog : s₁.log = e :: s.log)
    (hclosing : s.closing = true → s₁.closing = true ∧ ∀ k, e ≠ .closing k)
    (hchildren : (∃ k, .closing k ∈ s.log) → s.children = 0 → s₁.children = 0)
    (hops : ∀ o ∈ ops, o.Holds s₁ t) (hstart : System.StartOk (Op.Holds s₁) start) :
    Kept s s₁ H t op ops start := by
  refine ⟨htok ▸ hnd, htok ▸ hfree, htok ▸ h, fun t o ho => ?_, hops, hstart⟩
  refine ho.mono (by rw [hlog]; exact List.subset_cons_self _ _) (fun hc => ?_) hchildren
  refine ⟨(hclosing hc).1, fun k hin => ?_⟩
  rw [hlog] at hin
  exact (List.mem_cons.mp hin).resolve_left fun heq => (hclosing hc).2 k heq.symm

/-- Only the channels of a dial change. -/
theorem LifeInv.setDial (h : LifeInv s H) {d : CallID} {x : Dial}
    (hinner : x.innerDone = (s.dial d).innerDone) (hclosed : x.resCh.closed = false)
    (hres : ∀ res ∈ x.resCh.buf, res.Known s.log d) : LifeInv (s.setDial d x) H := by
  refine h.quiet rfl rfl rfl rfl (Nat.le_refl _) rfl (fun y => ?_) (fun y => ?_)
  · by_cases hy : y = d
    · subst hy
      simpa using hinner
    · simp [Function.update_of_ne hy]
  · by_cases hy : y = d
    · subst hy
      simpa using ⟨hclosed, hres⟩
    · rw [ReusableState.setDial_dial, Function.update_of_ne hy]
      exact h.dial.results y

theorem LifeInv.exec_accept (h : LifeInv s H) {d : CallID} (hd : H (.call d))
    (hop : Op.Holds s t (.accept d))
    (hex : exec s t c (.accept d) = some (s₁, ops, start)) :
    Kept s s₁ H t (.accept d) ops start := by
  obtain ⟨hlt, hfresh⟩ := h.call.fresh d hd
  simp only [exec] at hex
  split at hex <;> cases hex
  · next hclosing =>
      refine Kept.record (.refused d) [] rfl List.nodup_nil (by simp)
        (h.returned ⟨rfl, rfl, rfl⟩ hlt (by simp [Op.tokens]) (by simp [Op.tokens])
          ⟨hfresh, h.close.closing.mp hclosing⟩) rfl
        (fun _ => ⟨hclosing, by simp⟩) (fun _ => id) (fun o ho => ?_) trivial
      rw [List.mem_singleton.mp ho]
      exact Or.inr ⟨List.mem_cons_self, rfl⟩
  · next hopen =>
      have hopen := Bool.eq_false_iff.mpr hopen
      have hslot : ¬ H (.slot d) := fun hin =>
        hfresh _ (added_of_slots ((h.dial.slot d).mp hin)) rfl
      have hproxy : ¬ H (.proxy d) := fun hin => hfresh _ (h.dial.proxy d hin).1 rfl
      refine Kept.record (.added d) [.slot d, .proxy d] rfl (by simp) (fun k hk => Or.inr ?_)
        (h.added hd hopen) rfl (fun hc => ?_) (fun hc => ?_) (fun o ho => ?_) trivial
      · rcases List.mem_cons.mp hk with rfl | hk
        · exact hslot
        · rw [List.mem_singleton.mp hk]
          exact hproxy
      · rw [hopen] at hc
        cases hc
      · rw [h.close.closing.mpr hc] at hopen
        cases hopen
      · rw [List.mem_singleton.mp ho]
        exact hop

/-- `DialContext` takes the result of the establishment. -/
theorem LifeInv.exec_result (h : LifeInv s H) {d : CallID} {resCh : GoChan Established}
    {res : Established} (hrecv : (s.dial d).resCh.recv = some (some res, resCh)) :
    res.Known s.log d ∧ LifeInv (s.setDial d { s.dial d with resCh := resCh }) H := by
  obtain ⟨hclosed, hres⟩ := h.dial.results d
  unfold GoChan.recv at hrecv
  split at hrecv
  · next v buf hbuf =>
      cases hrecv
      rw [hbuf] at hres
      exact ⟨hres _ List.mem_cons_self,
        h.setDial rfl hclosed fun r hr => hres r (List.mem_cons_of_mem _ hr)⟩
  · split at hrecv <;> cases hrecv

/-- The protocol is checked before anything else. -/
theorem LifeInv.exec_dialContext (h : LifeInv s H) {d : CallID} {protocol : String}
    (hop : Op.Holds s t (.dialContext d protocol))
    (hown : ∀ x ∈ Op.tokens (.dialContext d protocol), H x)
    (hex : exec s t c (.dialContext d protocol) = some (s₁, ops, start)) :
    Kept s s₁ H t (.dialContext d protocol) ops start := by
  have hd := hown _ List.mem_cons_self
  obtain ⟨hlt, hfresh⟩ := h.call.fresh d hd
  simp only [Reusable.exec] at hex
  split at hex <;> cases hex
  · refine Kept.record (.dialReturned d protocolNotSupported) [] rfl List.nodup_nil (by simp)
      (h.returned ⟨rfl, rfl, rfl⟩ hlt (by simp [Op.tokens]) (by simp [Op.tokens])
        (Or.inr (Or.inr ⟨fun hin => hfresh _ hin rfl, rfl⟩))) rfl (fun hc => ⟨hc, by simp⟩)
      (fun _ => id) (by simp) trivial
  · refine Kept.move hown rfl (by simp [Op.tokens]) h rfl rfl rfl (fun o ho => ?_) trivial
    rw [List.mem_singleton.mp ho]
    exact hop

theorem LifeInv.exec_establish (h : LifeInv s H) {d : CallID} (hop : Op.Holds s t (.establish d))
    (hown : ∀ x ∈ Op.tokens (.establish d), H x)
    (hex : exec s t c (.establish d) = some (s₁, ops, start)) :
    Kept s s₁ H t (.establish d) ops start := by
  simp only [Reusable.exec] at hex
  cases hex
  refine Kept.move hown rfl (by simp [Op.tokens]) h rfl rfl rfl (fun o ho => ?_) ?_
  · rw [List.mem_singleton.mp ho]
    exact hop
  · intro o ho
    rw [List.mem_singleton.mp ho]
    trivial

/-- `DialContext` takes a ready case: the end of the request, or the result. -/
theorem LifeInv.exec_select (h : LifeInv s H) {d : CallID} (hop : Op.Holds s t (.select d))
    (hown : ∀ x ∈ Op.tokens (.select d), H x)
    (hex : exec s t c (.select d) = some (s₁, ops, start)) :
    Kept s s₁ H t (.select d) ops start := by
  simp only [Reusable.exec] at hex
  repeat' split at hex
  · cases hex
    refine Kept.move hown rfl (by simp [Op.tokens]) h rfl rfl rfl (fun o ho => ?_) trivial
    rcases List.mem_cons.mp ho with rfl | ho
    · trivial
    · rw [List.mem_singleton.mp ho]
      exact hop
  · cases hex
  · next err resCh hrecv =>
      cases hex
      obtain ⟨hknown, h'⟩ := h.exec_result hrecv
      have hadded := added_of_slots ((h.dial.slot d).mp (hown _ List.mem_cons_self))
      refine Kept.move hown rfl (by simp [Op.tokens]) h' rfl rfl rfl (fun o ho => ?_) trivial
      simp only [List.mem_cons, List.not_mem_nil, or_false] at ho
      rcases ho with rfl | rfl | rfl
      · trivial
      · exact ⟨Or.inl hop, Or.inl hknown⟩
      · exact Or.inl hadded
  · next resCh hrecv =>
      cases hex
      obtain ⟨hknown, h'⟩ := h.exec_result hrecv
      have hadded := added_of_slots ((h.dial.slot d).mp (hown _ List.mem_cons_self))
      refine Kept.move hown rfl (by simp [Op.tokens]) h' rfl rfl rfl (fun o ho => ?_) trivial
      simp only [List.mem_cons, List.not_mem_nil, or_false] at ho
      rcases ho with rfl | rfl
      · exact ⟨hop, hknown⟩
      · exact hadded
  · cases hex

/-- The goroutine that waits for a late result. -/
theorem LifeInv.exec_drain (h : LifeInv s H) {d : CallID} (hop : Op.Holds s t (.drain d))
    (hown : ∀ x ∈ Op.tokens (.drain d), H x) (hex : exec s t c (.drain d) = some (s₁, ops, start)) :
    Kept s s₁ H t (.drain d) ops start := by
  have hadded := added_of_slots ((h.dial.slot d).mp (hown _ List.mem_cons_self))
  simp only [Reusable.exec] at hex
  split at hex
  · next resCh hrecv =>
      cases hex
      obtain ⟨hknown, h'⟩ := h.exec_result hrecv
      refine Kept.move hown rfl (by simp [Op.tokens]) h' rfl rfl rfl (fun o ho => ?_) trivial
      simp only [List.mem_cons, List.not_mem_nil, or_false] at ho
      rcases ho with rfl | rfl
      · exact ⟨hop, hknown⟩
      · exact Or.inl hadded
  · next err resCh hrecv =>
      cases hex
      obtain ⟨hknown, h'⟩ := h.exec_result hrecv
      refine Kept.move hown rfl (by simp [Op.tokens]) h' rfl rfl rfl (fun o ho => ?_) trivial
      simp only [List.mem_cons, List.not_mem_nil, or_false] at ho
      rcases ho with rfl | rfl
      · exact ⟨Or.inl hop, Or.inl hknown⟩
      · exact Or.inl hadded
  · cases hex

theorem LifeInv.exec_innerDial (h : LifeInv s H) {d : CallID} (hop : Op.Holds s t (.innerDial d))
    (hown : ∀ x ∈ Op.tokens (.innerDial d), H x)
    (hex : exec s t c (.innerDial d) = some (s₁, ops, start)) :
    Kept s s₁ H t (.innerDial d) ops start := by
  have hadded : .added d ∈ s.log := hop
  simp only [Reusable.exec] at hex
  split at hex <;> cases hex
  · refine Kept.move hown rfl (by simp [Op.tokens]) h rfl rfl rfl (fun o ho => ?_) trivial
    rw [List.mem_singleton.mp ho]
    exact Or.inl hadded
  · refine Kept.move hown rfl (by simp [Op.tokens]) h rfl rfl rfl (fun o ho => ?_) trivial
    rcases List.mem_cons.mp ho with rfl | ho
    · trivial
    · rw [List.mem_singleton.mp ho]
      exact Or.inl hadded

theorem LifeInv.exec_dialReturn (h : LifeInv s H) {d : CallID} {ret : DialReturn}
    (hop : Op.Holds s t (.dialReturn d ret))
    (hex : exec s t c (.dialReturn d ret) = some (s₁, ops, start)) :
    Kept s s₁ H t (.dialReturn d ret) ops start := by
  simp only [Reusable.exec] at hex
  cases hex
  have hknown : d < s.calls ∧ ¬ H (.call d) := by
    rcases hop with hin | ⟨hin, -⟩ <;> exact h.call.known hin rfl
  have hj : (Event.dialReturned d ret).Justified s.log := by
    rcases hop with hin | hret
    · exact Or.inl hin
    · exact Or.inr (Or.inl hret)
  exact Kept.record (.dialReturned d ret) [] rfl List.nodup_nil (by simp)
    (h.returned ⟨rfl, rfl, rfl⟩ hknown.1 (by simp [Op.tokens]) (fun hc => absurd hc hknown.2) hj)
    rfl (fun hc => ⟨hc, by simp⟩) (fun _ => id) (by simp) trivial

/-- The stream is opened, or not. -/
theorem LifeInv.exec_proxy (h : LifeInv s H) {d : CallID}
    (hown : ∀ x ∈ Op.tokens (.proxy d), H x) (hex : exec s t c (.proxy d) = some (s₁, ops, start)) :
    Kept s s₁ H t (.proxy d) ops start := by
  have hd := hown _ List.mem_cons_self
  have hchild : ¬ H (.child d) := fun hin =>
    (h.dial.proxy d hd).2.1 (opened_of_running ((h.dial.child d).mp hin))
  simp only [Reusable.exec] at hex
  split at hex <;> cases hex
  · refine Kept.record (.opened d) [.child d] rfl (by simp) (fun k hk => Or.inr ?_)
      (h.opened hd) rfl (fun hc => ⟨hc, by simp⟩) (fun _ => id) (fun o ho => ?_) trivial
    · rw [List.mem_singleton.mp hk]
      exact hchild
    · rcases List.mem_cons.mp ho with rfl | ho
      · trivial
      · rw [List.mem_singleton.mp ho]
        exact List.mem_cons_self
  · refine Kept.record (.notOpened d) [] rfl (by simp) (by simp) (h.notOpened hd) rfl
      (fun hc => ⟨hc, by simp⟩) (fun _ => id) (fun o ho => ?_) trivial
    rw [List.mem_singleton.mp ho]
    exact List.mem_cons_self

theorem LifeInv.exec_sendResult (h : LifeInv s H) {d : CallID} {res : Established}
    (hop : Op.Holds s t (.sendResult d res)) (hown : ∀ x ∈ Op.tokens (.sendResult d res), H x)
    (hex : exec s t c (.sendResult d res) = some (s₁, ops, start)) :
    Kept s s₁ H t (.sendResult d res) ops start := by
  obtain ⟨hclosed, hres⟩ := h.dial.results d
  simp only [Reusable.exec, GoChan.send, hclosed] at hex
  split at hex
  · next resCh hsend =>
      cases hex
      simp only [Bool.false_eq_true, if_false] at hsend
      split at hsend <;> cases hsend
      refine Kept.move hown rfl (by simp [Op.tokens]) (h.setDial rfl rfl fun r hr => ?_)
        rfl rfl rfl (by simp) trivial
      rcases List.mem_append.mp hr with hr | hr
      · exact hres r hr
      · rw [List.mem_singleton.mp hr]
        exact hop
  · next reason hsend =>
      simp only [Bool.false_eq_true, if_false] at hsend
      split at hsend <;> cases hsend
  · cases hex

theorem LifeInv.exec_serve (h : LifeInv s H) {d : CallID} (hown : ∀ x ∈ Op.tokens (.serve d), H x)
    (hex : exec s t c (.serve d) = some (s₁, ops, start)) : Kept s s₁ H t (.serve d) ops start := by
  simp only [Reusable.exec] at hex
  cases hex
  refine Kept.move hown ?_ (by simp [Op.tokens]) h rfl rfl rfl (fun o ho => ?_) trivial
  · split <;> rfl
  · split at ho
    · rw [List.mem_singleton.mp ho]
      trivial
    · simp only [List.mem_cons, List.not_mem_nil, or_false] at ho
      rcases ho with rfl | rfl <;> trivial

/-- A second `Close` waits for the first. -/
theorem LifeInv.exec_close (h : LifeInv s H) {k : CallID}
    (hown : ∀ x ∈ Op.tokens (.close k), H x) (hex : exec s t c (.close k) = some (s₁, ops, start)) :
    Kept s s₁ H t (.close k) ops start := by
  have hk := hown _ List.mem_cons_self
  simp only [Reusable.exec] at hex
  split at hex <;> cases hex
  · next hclosing =>
      have hfresh := (h.call.fresh k hk).2
      refine ⟨List.nodup_nil, by simp [Op.tokens, Pool.startTokens], ?_, fun _ _ => id,
        fun o ho => ?_, trivial⟩
      · refine ⟨⟨fun d hd => ?_, h.call.bound⟩, ⟨fun d => ?_, h.dial.children, fun d hd => ?_,
          fun d => ?_, h.dial.inner, h.dial.results⟩, ⟨fun hx => ?_, fun hx => ?_,
          h.close.closed, h.close.closing, h.close.drained⟩, h.justified, h.panic⟩
        · exact h.call.fresh d (hd.resolve_left (by simp [Op.tokens, Pool.startTokens])).1
        · rw [← h.dial.slot d]
          simp [after, Op.tokens, Pool.startTokens]
        · exact h.dial.proxy d (hd.resolve_left (by simp [Op.tokens, Pool.startTokens])).1
        · rw [← h.dial.child d]
          simp [after, Op.tokens, Pool.startTokens]
        · exact h.close.conn (hx.resolve_left (by simp [Op.tokens, Pool.startTokens])).1
        · exact h.close.done (hx.resolve_left (by simp [Op.tokens, Pool.startTokens])).1
      · rw [List.mem_singleton.mp ho]
        exact ⟨hclosing, fun hin => hfresh _ hin rfl⟩
  · next hopen =>
      have hopen := Bool.eq_false_iff.mpr hopen
      refine Kept.record (.closing k) [.conn, .done] rfl (by simp) (fun x hx => Or.inr ?_)
        (h.closing hk hopen) rfl (fun hc => ?_) (fun _ => id) (fun o ho => ?_) trivial
      · intro hH
        have hc : s.closing = true := by
          simp only [List.mem_cons, List.not_mem_nil, or_false] at hx
          rcases hx with rfl | rfl
          · exact (h.close.conn hH).1
          · exact (h.close.done hH).1
        rw [hopen] at hc
        cases hc
      · rw [hopen] at hc
        cases hc
      · rw [List.mem_singleton.mp ho]
        exact List.mem_cons_self

theorem LifeInv.exec_closeDone (h : LifeInv s H) {k : CallID} {err : Option String}
    (hop : Op.Holds s t (.closeDone k err)) (hown : ∀ x ∈ Op.tokens (.closeDone k err), H x)
    (hex : exec s t c (.closeDone k err) = some (s₁, ops, start)) :
    Kept s s₁ H t (.closeDone k err) ops start := by
  obtain ⟨hopen, h'⟩ := h.doneClosed (k := k) (hown _ List.mem_cons_self) hop.2
  simp only [Reusable.exec, GoChan.close, hopen, Bool.false_eq_true, if_false] at hex
  cases hex
  refine Kept.record .doneClosed [] rfl List.nodup_nil (by simp) h' rfl
    (fun hc => ⟨hc, by simp⟩) (fun _ => id) (fun o ho => ?_) trivial
  rw [List.mem_singleton.mp ho]
  refine ⟨h.close.closing.mpr ⟨k, hop.1⟩, List.mem_cons_self, Or.inl ⟨?_, ?_⟩⟩
  · exact List.mem_cons_of_mem _ hop.1
  · exact List.mem_cons_of_mem _ hop.2

theorem LifeInv.exec (h : LifeInv s H) (hop : op.Holds s t) (hown : ∀ k ∈ op.tokens, H k)
    (hex : exec s t c op = some (s₁, ops, start)) : Kept s s₁ H t op ops start := by
  cases op with
  | accept d => exact h.exec_accept (hown _ List.mem_cons_self) hop hex
  | dialContext d protocol => exact h.exec_dialContext hop hown hex
  | establish d => exact h.exec_establish hop hown hex
  | select d => exact h.exec_select hop hown hex
  | drain d => exact h.exec_drain hop hown hex
  | startWatch d =>
      simp only [Reusable.exec] at hex
      cases hex
      refine Kept.move hown rfl (by simp [Op.tokens]) h rfl rfl rfl (by simp) ?_
      intro o ho
      rw [List.mem_singleton.mp ho]
      exact ⟨rfl, hop.2⟩
  | childrenDone d =>
      obtain ⟨hpos, h'⟩ := h.childDone (hown _ List.mem_cons_self) hop.2
      simp only [Reusable.exec, ReusableState.childrenDone,
        if_neg (show ¬ s.children - 1 < 0 by omega)] at hex
      cases hex
      exact Kept.record (.childDone d) [] rfl List.nodup_nil (by simp) h' rfl
        (fun hc => ⟨hc, by simp⟩) (fun _ hz => by omega) (by simp) trivial
  | streamCancel d =>
      simp only [Reusable.exec] at hex
      cases hex
      exact Kept.move hown rfl (by simp [Op.tokens])
        (h.setDial rfl (h.dial.results d).1 (h.dial.results d).2) rfl rfl rfl (by simp) trivial
  | innerDial d => exact h.exec_innerDial hop hown hex
  | dialReturn d ret => exact h.exec_dialReturn hop hex
  | proxy d => exact h.exec_proxy hown hex
  | startServe d =>
      simp only [Reusable.exec] at hex
      cases hex
      refine Kept.move hown rfl (by simp [Op.tokens]) h rfl rfl rfl (by simp) ?_
      intro o ho
      rw [List.mem_singleton.mp ho]
      trivial
  | sendResult d res => exact h.exec_sendResult hop hown hex
  | serve d => exact h.exec_serve hown hex
  | closeInner d =>
      obtain ⟨hopen, h'⟩ := h.finished (hown _ List.mem_cons_self)
      simp only [Reusable.exec, GoChan.close, hopen, Bool.false_eq_true, if_false] at hex
      cases hex
      exact Kept.record (.finished d) [] rfl List.nodup_nil (by simp) h' rfl
        (fun hc => ⟨hc, by simp⟩) (fun _ => id) (by simp) trivial
  | awaitInner d =>
      simp only [Reusable.exec] at hex
      split at hex <;> cases hex
      next hclosed =>
        refine Kept.move hown rfl (by simp [Op.tokens]) h rfl rfl rfl (fun o ho => ?_) trivial
        rw [List.mem_singleton.mp ho]
        exact ⟨Or.inr hop.1, Or.inr ((h.dial.inner d).mp hclosed)⟩
  | close k => exact h.exec_close hown hex
  | awaitDone k =>
      simp only [Reusable.exec] at hex
      split at hex <;> cases hex
      next hclosed =>
        refine Kept.move hown rfl (by simp [Op.tokens]) h rfl rfl rfl (fun o ho => ?_) trivial
        rw [List.mem_singleton.mp ho]
        exact ⟨hop.1, h.close.closed.mp hclosed, Or.inr ⟨hop.2, rfl⟩⟩
  | tunnelCancel k =>
      simp only [Reusable.exec] at hex
      cases hex
      refine Kept.move hown rfl (by simp [Op.tokens])
        (h.quiet rfl rfl rfl rfl (Nat.le_refl _) rfl (fun _ => rfl) h.dial.results) rfl rfl rfl
        (fun o ho => ?_) trivial
      rw [List.mem_singleton.mp ho]
      exact hop
  | childrenWait k =>
      simp only [Reusable.exec] at hex
      split at hex <;> cases hex
      next hzero =>
        refine Kept.move hown rfl (by simp [Op.tokens]) h rfl rfl rfl (fun o ho => ?_) trivial
        rw [List.mem_singleton.mp ho]
        exact ⟨hop, hzero⟩
  | connClose k =>
      simp only [Reusable.exec] at hex
      cases hex
      refine Kept.record (.connClosed c.connErr) [.done] rfl (by simp) (by simp [Op.tokens])
        (h.connClosed (hown _ (by simp [Op.tokens])) (hown _ (by simp [Op.tokens])) hop.1 hop.2) rfl
        (fun hc => ⟨hc, by simp⟩) (fun _ => id) (fun o ho => ?_) trivial
      rw [List.mem_singleton.mp ho]
      exact ⟨List.mem_cons_of_mem _ hop.1, List.mem_cons_self⟩
  | closeDone k err => exact h.exec_closeDone hop hown hex
  | closeReturn k err =>
      simp only [Reusable.exec] at hex
      cases hex
      exact Kept.record (.closeReturned k err) [] rfl List.nodup_nil (by simp)
        (h.closeReturned hop.2) rfl (fun hc => ⟨hc, by simp⟩) (fun _ => id) (by simp) trivial

theorem LifeInv.arrive (h : LifeInv s H) {a : TunnelAction}
    (harr : arrive s a = some (s₁, start)) :
    ((Pool.startTokens Op.tokens start).Nodup ∧
        ∀ k ∈ Pool.startTokens Op.tokens start, ¬ H k) ∧
      LifeInv s₁ (fun k => k ∈ Pool.startTokens Op.tokens start ∨ H k) ∧
      (∀ t o, Op.Holds s t o → Op.Holds s₁ t o) ∧ System.StartOk (Op.Holds s₁) start := by
  -- A new call carries a fresh token, everything else carries none.
  have hcall : ∀ {op : Op} {t : Tid}, op.tokens = [.call s.calls] →
      Op.Holds { s with calls := s.calls + 1 } t op →
      ((Pool.startTokens Op.tokens (some (t, [op]))).Nodup ∧
          ∀ k ∈ Pool.startTokens Op.tokens (some (t, [op])), ¬ H k) ∧
        LifeInv { s with calls := s.calls + 1 }
          (fun k => k ∈ Pool.startTokens Op.tokens (some (t, [op])) ∨ H k) ∧
        (∀ t o, Op.Holds s t o → Op.Holds { s with calls := s.calls + 1 } t o) ∧
        System.StartOk (Op.Holds { s with calls := s.calls + 1 }) (some (t, [op])) := by
    intro op t htok hop
    have hnew : Pool.startTokens Op.tokens (some (t, [op])) = [.call s.calls] := by
      simp [Pool.startTokens, htok]
    rw [hnew]
    refine ⟨⟨by simp, fun k hk hH => ?_⟩, ?_, fun t o ho => ?_, fun o ho => ?_⟩
    · rw [List.mem_singleton.mp hk] at hH
      exact absurd (h.call.fresh _ hH).1 (Nat.lt_irrefl _)
    · refine ⟨⟨fun d hd => ?_, fun e he d hd => Nat.lt_succ_of_lt (h.call.bound e he d hd)⟩,
        ⟨fun d => ?_, h.dial.children, fun d hd => ?_, fun d => ?_, h.dial.inner, h.dial.results⟩,
        ⟨fun hx => ?_, fun hx => ?_, h.close.closed, h.close.closing, h.close.drained⟩,
        h.justified, h.panic⟩
      · rcases hd with hd | hd
        · obtain rfl : d = s.calls := by simpa using hd
          exact ⟨Nat.lt_succ_self _, fun e he hc => absurd (h.call.bound e he _ hc)
            (Nat.lt_irrefl _)⟩
        · exact ⟨Nat.lt_succ_of_lt (h.call.fresh d hd).1, (h.call.fresh d hd).2⟩
      · rw [← h.dial.slot d]
        simp
      · exact h.dial.proxy d (hd.resolve_left (by simp))
      · rw [← h.dial.child d]
        simp
      · exact h.close.conn (hx.resolve_left (by simp))
      · exact h.close.done (hx.resolve_left (by simp))
    · exact ho.mono (List.Subset.refl _) (fun hc => ⟨hc, fun _ => id⟩) (fun _ => id)
    · rw [List.mem_singleton.mp ho]
      exact hop
  have hquiet : ∀ {s₁ : ReusableState}, LifeInv s₁ H → s₁.log = s.log → s₁.closing = s.closing →
      s₁.children = s.children →
      LifeInv s₁ (fun k => k ∈ Pool.startTokens Op.tokens (none : Option (Tid × List Op)) ∨ H k) ∧
        ∀ t o, Op.Holds s t o → Op.Holds s₁ t o := by
    intro s₁ h₁ hlog hclosing hchildren
    refine ⟨?_, fun t o ho => ho.mono ?_ ?_ ?_⟩
    · rw [show (fun k => k ∈ Pool.startTokens Op.tokens (none : Option (Tid × List Op)) ∨ H k) = H
        from funext fun k => by simp [Pool.startTokens]]
      exact h₁
    · rw [hlog]
      exact List.Subset.refl _
    · rw [hlog, hclosing]
      exact fun hc => ⟨hc, fun _ => id⟩
    · rw [hchildren]
      exact fun _ => id
  cases a with
  | dialContext protocol =>
      simp only [Reusable.arrive] at harr
      cases harr
      exact hcall rfl rfl
  | close =>
      simp only [Reusable.arrive] at harr
      cases harr
      exact hcall rfl trivial
  | requestEnd d =>
      simp only [Reusable.arrive] at harr
      cases harr
      obtain ⟨h1, h2⟩ := hquiet (h.setDial (d := d) (x := { s.dial d with requestDone := true }) rfl
        (h.dial.results d).1 (h.dial.results d).2) rfl rfl rfl
      exact ⟨⟨List.nodup_nil, by simp [Pool.startTokens]⟩, h1, h2, trivial⟩
  | closeTunnel d =>
      simp only [Reusable.arrive] at harr
      split at harr <;> cases harr
      obtain ⟨h1, h2⟩ := hquiet (h.setDial (d := d) (x := { s.dial d with cancelled := true }) rfl
        (h.dial.results d).1 (h.dial.results d).2) rfl rfl rfl
      exact ⟨⟨List.nodup_nil, by simp [Pool.startTokens]⟩, h1, h2, trivial⟩

end Steps

/-! ## Runs -/

theorem reusable_inv {okExec : ReusableState → Tid → Choice → Op → Prop}
    {okArrive : ReusableState → TunnelAction → Prop} {s : System.State ReusableState Tid Op}
    (h : Reach reusableTunnel.step (System.Allowed okExec okArrive) newReusableGrpcTunnel s) :
    Pool.Exclusive Op.tokens s.threads ∧ LifeInv s.shared (Pool.Held Op.tokens s.threads) ∧
      Pool.All (Op.Holds s.shared) s.threads := by
  have hnone : ∀ k, ¬ Pool.Held Op.tokens newReusableGrpcTunnel.threads k := by
    rintro k ⟨t, o, ho, -⟩
    cases ho
  refine System.invariant_tokens Op.tokens LifeInv Op.Holds ?_ ?_ ?_ ?_ ?_ h
  · exact ⟨fun t => List.nodup_nil, fun t t' _ => List.disjoint_nil_left _⟩
  · refine ⟨⟨fun d hd => absurd hd (hnone _), fun e he => nomatch he⟩,
      ⟨fun d => ?_, rfl, fun d hd => absurd hd (hnone _), fun d => ?_, fun d => ?_, fun d => ?_⟩,
      ⟨fun hx => absurd hx (hnone _), fun hx => absurd hx (hnone _), ?_, ?_,
        fun err he => nomatch he⟩,
      trivial, rfl⟩
    · exact iff_of_false (hnone _) (Finset.notMem_empty _)
    · exact iff_of_false (hnone _) (Finset.notMem_empty _)
    · simp [newReusableGrpcTunnel]
    · simp [newReusableGrpcTunnel]
    · simp [newReusableGrpcTunnel]
    · simp [newReusableGrpcTunnel]
  · exact fun t o ho => nomatch ho
  · intro s H t c o s₁ ops start _ _ hJ hP hown _ hex
    obtain ⟨h1, h2, h3, h4, h5, h6⟩ := hJ.exec hP hown hex
    exact ⟨⟨h1, h2⟩, h3, fun t o _ => h4 t o, h5, h6⟩
  · intro s H a s₁ start _ hJ _ harr
    exact hJ.arrive harr

/-- What holds of a tunnel at any time. -/
structure TunnelLife (s : System.State ReusableState Tid Op) : Prop where
  panic : s.shared.panic = none
  /-- An `Add` is the only one of its dial and comes before `closing` is set. -/
  add : ∀ later d earlier, s.shared.log = later ++ Event.added d :: earlier →
    .added d ∉ earlier ∧ ∀ k, .closing k ∉ earlier
  /-- A `Done` is the only one for its `Add`, and the establishment has failed
  or the child has finished. -/
  done : ∀ later d earlier, s.shared.log = later ++ Event.childDone d :: earlier →
    .added d ∈ earlier ∧ .childDone d ∉ earlier ∧
      (.notOpened d ∈ earlier ∨ .finished d ∈ earlier)
  /-- Somebody owes each `Done` that is missing. -/
  owed : ∀ d, .added d ∈ s.shared.log → .childDone d ∉ s.shared.log →
    s.threads (.dial d) ≠ [] ∨ s.threads (.watch d) ≠ []
  counter : s.shared.children = (slots s.shared.log).card ∧
    ((running s.shared.log).card : Int) ≤ s.shared.children
  connClosed : ∀ later err earlier, s.shared.log = later ++ Event.connClosed err :: earlier →
    (∃ k, .closing k ∈ earlier) ∧ ∀ err', .connClosed err' ∉ earlier
  /-- By then every child has finished, and no stream is opened any more. -/
  drained : ∀ err, .connClosed err ∈ s.shared.log →
    ∀ d, .opened d ∈ s.shared.log → .finished d ∈ s.shared.log
  doneClosed : ∀ later earlier, s.shared.log = later ++ Event.doneClosed :: earlier →
    .doneClosed ∉ earlier ∧ ∃ err, .connClosed err ∈ earlier
  first : ∀ k k', .closing k ∈ s.shared.log → .closing k' ∈ s.shared.log → k = k'
  closeReturned : ∀ later k err earlier,
    s.shared.log = later ++ Event.closeReturned k err :: earlier →
    .doneClosed ∈ earlier ∧
      ((.closing k ∈ earlier ∧ .connClosed err ∈ earlier) ∨ (.closing k ∉ earlier ∧ err = none))
  /-- What `DialContext` returns comes from a dial that was added, and so before
  `closing` was set, from one that found it set, or from the check of the
  protocol. -/
  returned : ∀ later d ret earlier, s.shared.log = later ++ Event.dialReturned d ret :: earlier →
    .added d ∈ earlier ∨ (.refused d ∈ earlier ∧ ret = tunnelClosed) ∨
      (.refused d ∉ earlier ∧ ret = protocolNotSupported)
  closing : ∀ later d earlier, s.shared.log = later ++ Event.refused d :: earlier →
    ∃ k, .closing k ∈ earlier
  refused : ∀ d, .refused d ∈ s.shared.log → .added d ∉ s.shared.log ∧ .opened d ∉ s.shared.log ∧
    ∀ ret, .dialReturned d ret ∈ s.shared.log → ret = tunnelClosed

/-- For any number of calls of `DialContext` and `Close`, in any interleaving
with the establishment of the streams and with their children. -/
theorem tunnel_life {s : System.State ReusableState Tid Op}
    (h : Reach reusableTunnel.step System.unrestricted
      newReusableGrpcTunnel s) : TunnelLife s := by
  obtain ⟨-, hinv, hall⟩ := reusable_inv h
  have hj := hinv.justified
  refine ⟨hinv.panic, fun later d earlier hlog => ?_, fun later d earlier hlog => ?_,
    fun d hadded hnot => ?_, ⟨hinv.dial.children, ?_⟩, fun later err earlier hlog => ?_,
    fun err hconn d hopened => ?_, fun later earlier hlog => hj.at_append hlog,
    fun k k' => closing_unique hj, fun later k err earlier hlog => hj.at_append hlog,
    fun later d ret earlier hlog => hj.at_append hlog,
    fun later d earlier hlog => (hj.at_append hlog).2, fun d hr => ?_⟩
  · obtain ⟨h1, h2⟩ : (Event.added d).Justified earlier := hj.at_append hlog
    exact ⟨fun hin => h1 _ hin rfl, h2⟩
  · obtain ⟨h1, h2⟩ : (Event.childDone d).Justified earlier := hj.at_append hlog
    rw [hlog] at hj
    exact ⟨added_of_slots h1, not_done_of_slots hj.of_append.2 h1, h2⟩
  · have hslot := (slots_or_done hadded).resolve_right hnot
    obtain ⟨t, o, ho, hk⟩ := (hinv.dial.slot d).mpr hslot
    have hP := hall t o ho
    have ht : t = .dial d ∨ t = .watch d := by
      cases o <;> simp [Op.tokens] at hk <;> subst hk
      all_goals first
        | exact Or.inl hP
        | exact Or.inl hP.1
        | exact Or.inr hP.1
        | exact hP.1
    rcases ht with rfl | rfl
    · exact Or.inl (List.ne_nil_of_mem ho)
    · exact Or.inr (List.ne_nil_of_mem ho)
  · rw [hinv.dial.children]
    exact Int.ofNat_le.mpr (Finset.card_le_card (running_subset_slots hj))
  · obtain ⟨h1, h2, -⟩ : (Event.connClosed err).Justified earlier := hj.at_append hlog
    exact ⟨h1, h2⟩
  · refine (running_or_finished hopened).resolve_left fun hrun => ?_
    have hslot := running_subset_slots hj hrun
    have hzero := (hinv.close.drained err hconn).2
    rw [hinv.dial.children] at hzero
    have hpos := Finset.card_pos.mpr ⟨d, hslot⟩
    omega
  · have hnot := not_added_of_refused hj hr
    exact ⟨hnot, fun hin => hnot (added_of_opened hj hin), fun ret => tunnelClosed_of_refused hj hr⟩

/-- A stream that is established after its caller gave up. `Close` waits for
the child; a second `Close` returns nil, and a dial after that is refused. -/
theorem tunnel_life_late :
    ∃ s : System.State ReusableState Tid Op,
      Reach reusableTunnel.step System.unrestricted
        newReusableGrpcTunnel s ∧
        .opened 0 ∈ s.shared.log ∧ .dialReturned 0 dialTimeout ∈ s.shared.log ∧
        .closeReturned 1 (some "busy") ∈ s.shared.log ∧ .closeReturned 2 none ∈ s.shared.log ∧
        .dialReturned 3 tunnelClosed ∈ s.shared.log ∧ TunnelLife s := by
  let acts : List (System.Action Tid TunnelAction Choice) :=
    [.arrive (.dialContext "tcp"), .run (.dial 0) {}, .run (.dial 0) {}, .run (.dial 0) {},
      .arrive (.requestEnd 0), .run (.dial 0) { request := true }, .run (.dial 0) {},
      .run (.establish 0) {}, .run (.establish 0) {}, .run (.establish 0) {}, .run (.dial 0) {},
      .run (.dial 0) {}, .run (.dial 0) {}, .arrive .close, .arrive .close, .run (.close 1) {},
      .run (.close 1) {}, .run (.close 2) {}, .run (.serve 0) { serving := false },
      .run (.serve 0) {}, .run (.serve 0) {}, .run (.watch 0) {}, .run (.watch 0) {},
      .run (.close 1) {}, .run (.close 1) { connErr := some "busy" }, .run (.close 1) {},
      .run (.close 1) {}, .run (.close 2) {}, .run (.close 2) {}, .arrive (.dialContext "tcp"),
      .run (.dial 3) {}, .run (.dial 3) {}, .run (.dial 3) {}]
  obtain ⟨s, hs, hend⟩ : ∃ s, run reusableTunnel.step newReusableGrpcTunnel acts = some s ∧
      decide (.opened 0 ∈ s.shared.log ∧ .dialReturned 0 dialTimeout ∈ s.shared.log ∧
        .closeReturned 1 (some "busy") ∈ s.shared.log ∧ .closeReturned 2 none ∈ s.shared.log ∧
        .dialReturned 3 tunnelClosed ∈ s.shared.log) = true :=
    run_any (by decide)
  obtain ⟨h1, h2, h3, h4, h5⟩ := of_decide_eq_true hend
  have hreach : Reach reusableTunnel.step
      System.unrestricted newReusableGrpcTunnel s :=
    reach_of_run hs (by decide)
  exact ⟨s, hreach, h1, h2, h3, h4, h5, tunnel_life hreach⟩

end Konnectivity.Client.Reusable
