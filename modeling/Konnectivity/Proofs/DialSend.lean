import Konnectivity.Server.DialSend

/-!
# The outcome of sending a `DIAL_REQ`

The send lock is a token: it is taken exactly while some operation between
`lockSend` and `unlockSend` is left to do, and no two operations carry it.
The right to make the one call of `SendContext` a dial makes is a token as
well, which goes from the caller to the goroutine it starts.

Most of the rest is monotone (`Le`): contexts end once, dials keep their
packet, and what is written down about a call is final once the stream's
`Send` has ended. So what a goroutine has seen is still so when it returns.
-/

namespace Konnectivity.DialSend

open Lib

variable {timeout : Int} {b b' : Backend} {s : System.State Backend Tid Op}

/-! ## The lock -/

/-- The operations with `unlockSend` still to come. -/
def Op.locked : Op → Bool
  | .recheck _ => true
  | .streamSend _ => true
  | .streamSent _ => true
  | .unlockSend _ _ => true
  | _ => false

def lockToken (o : Op) : List Unit := if o.locked then [()] else []

/-- The lock is taken while it is carried, and only then is the stream in use. -/
structure LockOk (b : Backend) (H : Unit → Prop) : Prop where
  lock : b.sendLock = true ↔ H ()
  idle : ¬ H () → b.sending = []

/-- The sends an operation with the lock has in progress. -/
def Op.stream : Op → List CallId
  | .streamSent c => [c.id]
  | _ => []

def StreamAt (b : Backend) (o : Op) : Prop := o.locked = true → b.sending = o.stream

theorem LockOk.congr {H H' : Unit → Prop} (h : LockOk b H) (hlock : b'.sendLock = b.sendLock)
    (hsending : b'.sending = b.sending) (hH : H' () ↔ H ()) : LockOk b' H' :=
  ⟨by rw [hlock, hH, h.lock], fun hn => by rw [hsending, h.idle (fun hh => hn (hH.mpr hh))]⟩

@[simp] theorem setDial_sendLock (i : Nat) (f : Dial → Dial) :
    (b.setDial i f).sendLock = b.sendLock := rfl

@[simp] theorem setDial_sending (i : Nat) (f : Dial → Dial) :
    (b.setDial i f).sending = b.sending := rfl

/-- The operations of a dial do not touch the lock, and do not come to have
it. -/
theorem execDial_unlocked {pick : Pick} {i : Nat} {d : Dial} {o : Op} {ops : List Op}
    {start : Option (Tid × List Op)}
    (h : execDial timeout b pick i d o = some (b', ops, start)) :
    b'.sendLock = b.sendLock ∧ b'.sending = b.sending ∧ ops.flatMap lockToken = [] ∧
      Pool.startTokens lockToken start = [] := by
  cases o with
  | start j =>
      simp only [execDial] at h
      split at h <;> cases h <;> exact ⟨rfl, rfl, rfl, rfl⟩
  | newSendCtx j | afterFunc j | goSend j | finish j err =>
      cases h
      exact ⟨rfl, rfl, rfl, rfl⟩
  | select j =>
      simp only [execDial] at h
      split at h <;> obtain ⟨_, -, h⟩ := Option.map_eq_some_iff.mp h <;> cases h <;>
        exact ⟨rfl, rfl, rfl, rfl⟩
  | resolve j =>
      simp only [execDial] at h
      split at h
      · cases h
        exact ⟨rfl, rfl, rfl, rfl⟩
      · obtain ⟨_, -, h⟩ := Option.map_eq_some_iff.mp h
        cases h
        exact ⟨rfl, rfl, rfl, rfl⟩
  | _ => cases h

theorem execRet_unlocked {c : Call} {err : Option Err} {ops : List Op}
    {start : Option (Tid × List Op)} (h : execRet b c err = some (b', ops, start)) :
    b'.sendLock = b.sendLock ∧ b'.sending = b.sending ∧ ops.flatMap lockToken = [] ∧
      Pool.startTokens lockToken start = [] := by
  unfold execRet at h
  split at h
  · obtain ⟨d, -, h⟩ := Option.bind_eq_some_iff.mp h
    split at h
    · cases h
    · cases h
      exact ⟨rfl, rfl, rfl, rfl⟩
  · cases h
    exact ⟨rfl, rfl, rfl, rfl⟩
  · cases h
    exact ⟨rfl, rfl, rfl, rfl⟩

theorem execQueue_unlocked {o : Op} {ops : List Op} {start : Option (Tid × List Op)}
    (h : execQueue b o = some (b', ops, start)) :
    b'.sendLock = b.sendLock ∧ b'.sending = b.sending ∧ ops.flatMap lockToken = [] ∧
      Pool.startTokens lockToken start = [] := by
  cases o with
  | sendContext ctx p =>
      cases h
      exact ⟨rfl, rfl, rfl, rfl⟩
  | queueLock | queueAppend p | queuePop =>
      simp only [execQueue] at h
      split at h <;> cases h <;> exact ⟨rfl, rfl, rfl, rfl⟩
  | _ => cases h

/-- What an operation has to keep, for the holders `H` of the lock. -/
structure LockStep (b : Backend) (H : Unit → Prop) (t : Tid) (o : Op) (b' : Backend)
    (ops : List Op) (start : Option (Tid × List Op)) : Prop where
  fresh : (ops.flatMap lockToken ++ Pool.startTokens lockToken start).Nodup ∧
    ∀ k ∈ ops.flatMap lockToken ++ Pool.startTokens lockToken start, k ∈ lockToken o ∨ ¬ H k
  ok : LockOk b' fun k =>
    k ∈ ops.flatMap lockToken ++ Pool.startTokens lockToken start ∨ (H k ∧ k ∉ lockToken o)
  stable : ∀ o', (∀ k ∈ lockToken o', H k ∧ k ∉ lockToken o) → StreamAt b o' → StreamAt b' o'
  pushed : ∀ o' ∈ ops, StreamAt b' o'
  started : System.StartOk (fun _ => StreamAt b') start

theorem streamAt_of_no_token {ops : List Op} (h : ops.flatMap lockToken = []) :
    ∀ o ∈ ops, StreamAt b o := by
  intro o ho hlocked
  have hnone := List.flatMap_eq_nil_iff.mp h o ho
  rw [lockToken, if_pos hlocked] at hnone
  cases hnone

/-- An operation that leaves lock and stream alone, and starts nothing that has
the lock. -/
theorem lockStep_unlocked {H : Unit → Prop} {t : Tid} {o : Op} {ops : List Op}
    {start : Option (Tid × List Op)} (h : LockOk b H) (ho : o.locked = false)
    (hb : b'.sendLock = b.sendLock ∧ b'.sending = b.sending ∧ ops.flatMap lockToken = [] ∧
      Pool.startTokens lockToken start = []) : LockStep b H t o b' ops start := by
  obtain ⟨hlock, hsending, hops, hstart⟩ := hb
  have htok : lockToken o = [] := by rw [lockToken, ho]; rfl
  refine ⟨?_, h.congr hlock hsending ?_, fun o' _ hat hl => by rw [hsending, hat hl],
    streamAt_of_no_token hops, ?_⟩
  · rw [hops, hstart]
    exact ⟨List.nodup_nil, nofun⟩
  · rw [hops, hstart, htok]
    simp
  · cases start with
    | none => trivial
    | some st => exact streamAt_of_no_token hstart

/-- An operation of the goroutine that has the lock, and keeps it. -/
theorem lockStep_locked {H : Unit → Prop} {t : Tid} {o o' : Op} (h : LockOk b H) (hH : H ())
    (ho : o.locked = true) (ho' : o'.locked = true) (hlock : b'.sendLock = b.sendLock)
    (hsending : b'.sending = o'.stream) : LockStep b H t o b' [o'] none := by
  have htok : lockToken o = [()] := by rw [lockToken, ho]; rfl
  have htok' : lockToken o' = [()] := by rw [lockToken, ho']; rfl
  refine ⟨?_, ⟨?_, fun hn => absurd ?_ hn⟩, ?_, ?_, trivial⟩
  · simp [htok, htok', Pool.startTokens]
  · rw [hlock, h.lock]
    simp [htok', hH]
  · simp [htok']
  · -- nobody else has the lock
    intro o'' hother _ hl
    have hmem : () ∈ lockToken o'' := by rw [lockToken, if_pos hl]; exact List.mem_singleton_self _
    exact absurd (by rw [htok]; exact List.mem_singleton_self _) (hother () hmem).2
  · intro o'' ho'' _
    rw [List.mem_singleton.mp ho'', hsending]

theorem execSend_lock {H : Unit → Prop} {t : Tid} {pick : Pick} {c : Call} {o : Op}
    {ops : List Op} {start : Option (Tid × List Op)} (h : LockOk b H) (hat : StreamAt b o)
    (hH : ∀ k ∈ lockToken o, H k) (hc : o.call? = some c)
    (hex : execSend b pick c o = some (b', ops, start)) : LockStep b H t o b' ops start := by
  cases o with
  | check c' =>
      simp only [execSend] at hex
      split at hex <;> cases hex <;> exact lockStep_unlocked h rfl ⟨rfl, rfl, rfl, rfl⟩
  | lockSend c' =>
      simp only [execSend] at hex
      split at hex
      · obtain ⟨e, -, hex⟩ := Option.map_eq_some_iff.mp hex
        cases hex
        exact lockStep_unlocked h rfl ⟨rfl, rfl, rfl, rfl⟩
      · split at hex
        · cases hex
        · next hfree =>
            cases hex
            have hnone : ¬ H () := fun hh => hfree (h.lock.mpr hh)
            refine ⟨⟨List.nodup_singleton _, fun k _ => Or.inr hnone⟩,
              ⟨iff_of_true rfl (Or.inl (List.mem_singleton_self _)),
                fun hn => absurd (Or.inl (List.mem_singleton_self _)) hn⟩,
              fun o' _ hat' => hat', ?_, trivial⟩
            intro o' ho' _
            rw [List.mem_singleton.mp ho']
            exact h.idle hnone
  | recheck c' =>
      have hsending : b.sending = [] := hat rfl
      simp only [execSend] at hex
      split at hex <;> cases hex <;>
        exact lockStep_locked h (hH () (List.mem_singleton_self _)) rfl rfl rfl hsending
  | streamSend c' =>
      cases hc
      cases hex
      refine lockStep_locked h (hH () (List.mem_singleton_self _)) rfl rfl rfl ?_
      show c.id :: b.sending = [c.id]
      rw [show b.sending = [] from hat rfl]
  | streamSent c' =>
      cases hc
      cases hex
      refine lockStep_locked h (hH () (List.mem_singleton_self _)) rfl rfl rfl ?_
      show b.sending.erase c.id = []
      rw [show b.sending = [c.id] from hat rfl]
      exact List.erase_cons_head ..
  | unlockSend c' err =>
      have hsending : b.sending = [] := hat rfl
      simp only [execSend] at hex
      split at hex
      · cases hex
        refine ⟨⟨List.nodup_nil, nofun⟩, ⟨iff_of_false nofun ?_, fun _ => hsending⟩,
          fun o' _ hat' => hat', streamAt_of_no_token rfl, trivial⟩
        rintro (hk | ⟨-, hk⟩)
        · cases hk
        · exact hk (List.mem_singleton_self _)
      · cases hex
  | ret c' err => exact lockStep_unlocked h rfl (execRet_unlocked hex)
  | _ => cases hc

theorem exec_lock {H : Unit → Prop} {t : Tid} {pick : Pick} {o : Op} {ops : List Op}
    {start : Option (Tid × List Op)} (h : LockOk b H) (hat : StreamAt b o)
    (hH : ∀ k ∈ lockToken o, H k) (hex : exec timeout b t pick o = some (b', ops, start)) :
    LockStep b H t o b' ops start := by
  unfold exec at hex
  split at hex
  · next i c hi =>
      obtain ⟨d, -, hex⟩ := Option.bind_eq_some_iff.mp hex
      refine lockStep_unlocked h ?_ (execDial_unlocked hex)
      cases o <;> first | rfl | cases hi
  · next c _ hc => exact execSend_lock h hat hH hc hex
  · next hc =>
      refine lockStep_unlocked h ?_ (execQueue_unlocked hex)
      cases o <;> first | rfl | cases hc

theorem arrive_unlocked {a : Event} {start : Option (Tid × List Op)}
    (h : arrive timeout b a = some (b', start)) :
    b'.sendLock = b.sendLock ∧ b'.sending = b.sending ∧
      Pool.startTokens lockToken start = [] := by
  cases a with
  | queueSend n p | otherDone n e | backendDone e =>
      cases h
      exact ⟨rfl, rfl, rfl⟩
  | dial i p hasDone =>
      simp only [arrive] at h
      split at h <;> cases h
      exact ⟨rfl, rfl, rfl⟩
  | send n ctx p =>
      simp only [arrive] at h
      split at h <;> cases h
      exact ⟨rfl, rfl, rfl⟩
  | callerDone i e | propagate i | expire i | cancel i =>
      simp only [arrive, endDial] at h
      split at h
      · split at h <;> cases h
        exact ⟨rfl, rfl, rfl⟩
      · cases h

/-- No two operations have the lock, and the stream is in use by the one that
has it. -/
theorem lock_reach (h : Reach (backend timeout).step System.unrestricted init s) :
    Pool.Exclusive lockToken s.threads ∧ LockOk s.shared (Pool.Held lockToken s.threads) ∧
      Pool.All (fun _ => StreamAt s.shared) s.threads := by
  refine System.invariant_tokens lockToken LockOk (fun b _ => StreamAt b) ?_ ?_ ?_ ?_ ?_ h
  · exact ⟨fun _ => List.nodup_nil, fun _ _ _ => nofun⟩
  · refine ⟨iff_of_false nofun ?_, fun _ => rfl⟩
    rintro ⟨t, o, ho, -⟩
    cases ho
  · exact fun _ _ => nofun
  · intro s H t pick o b' ops start _ _ hok hat hH _ hex
    have hstep := exec_lock (t := t) hok hat hH hex
    exact ⟨hstep.fresh, hstep.ok, fun _ => hstep.stable, hstep.pushed, hstep.started⟩
  · intro s H a b' start _ hok _ harr
    obtain ⟨hlock, hsending, hstart⟩ := arrive_unlocked harr
    rw [hstart]
    refine ⟨⟨List.nodup_nil, nofun⟩, hok.congr hlock hsending (by simp),
      fun _ _ hat hl => by rw [hsending, hat hl], ?_⟩
    cases start with
    | none => trivial
    | some st => exact streamAt_of_no_token hstart

/-! ## What only grows -/

/-- A later state of a dial. -/
structure Dial.Le (d d' : Dial) : Prop where
  packet : d'.packet = d.packet
  hasDone : d'.hasDone = d.hasDone
  derived : d.derived = true → d'.derived = true
  cause : ∀ c, d.cause = some c → d'.cause = some c
  callerErr : ∀ e, d.callerErr = some e → d'.callerErr = some e

/-- A later state of the backend. What is written down about a call whose
stream's `Send` has ended stays as it is. -/
structure Le (b b' : Backend) : Prop where
  err : ∀ e, b.err = some e → b'.err = some e
  otherErr : ∀ n e, b.otherErr n = some e → b'.otherErr n = some e
  plain : b.plain ≤ b'.plain
  dials : ∀ i d, b.dials i = some d → ∃ d', b'.dials i = some d' ∧ d.Le d'
  calls : ∀ id, (b.calls id).ended ≠ [] → b'.calls id = b.calls id

theorem Dial.Le.refl (d : Dial) : d.Le d := ⟨rfl, rfl, id, fun _ => id, fun _ => id⟩

/-- The same, but for lock, stream and queue. -/
structure Same (b b' : Backend) : Prop where
  err : b'.err = b.err
  otherErr : b'.otherErr = b.otherErr
  plain : b'.plain = b.plain
  dials : b'.dials = b.dials
  calls : b'.calls = b.calls

theorem Same.refl (b : Backend) : Same b b := ⟨rfl, rfl, rfl, rfl, rfl⟩

theorem Same.le (h : Same b b') : Le b b' where
  err := fun e he => by rw [h.err, he]
  otherErr := fun n e he => by rw [h.otherErr, he]
  plain := Nat.le_of_eq h.plain.symm
  dials := fun i d hd => ⟨d, by rw [h.dials, hd], .refl d⟩
  calls := fun id _ => by rw [h.calls]

theorem setDial_self (i : Nat) (f : Dial → Dial) :
    (b.setDial i f).dials i = (b.dials i).map f := by
  unfold Backend.setDial
  exact Function.update_self ..

theorem setDial_some {i : Nat} {d : Dial} (h : b.dials i = some d) (f : Dial → Dial) :
    (b.setDial i f).dials i = some (f d) := by
  rw [setDial_self, h]
  rfl

theorem setDial_of_ne {i j : Nat} (h : j ≠ i) (f : Dial → Dial) :
    (b.setDial i f).dials j = b.dials j := by
  unfold Backend.setDial
  exact Function.update_of_ne h ..

theorem setCall_self (id : CallId) (f : CallLog → CallLog) :
    (b.setCall id f).calls id = f (b.calls id) := by
  unfold Backend.setCall
  exact Function.update_self ..

theorem setCall_of_ne {id id' : CallId} (h : id' ≠ id) (f : CallLog → CallLog) :
    (b.setCall id f).calls id' = b.calls id' := by
  unfold Backend.setCall
  exact Function.update_of_ne h ..

theorem le_setDial {i : Nat} {f : Dial → Dial} (hf : ∀ d, b.dials i = some d → d.Le (f d)) :
    Le b (b.setDial i f) where
  err := fun _ h => h
  otherErr := fun _ _ h => h
  plain := Nat.le_refl _
  dials := fun j d h => by
    by_cases hj : j = i
    · subst hj
      exact ⟨f d, setDial_some h f, hf d h⟩
    · exact ⟨d, by rw [setDial_of_ne hj, h], .refl d⟩
  calls := fun _ _ => rfl

theorem le_setCall {id : CallId} {f : CallLog → CallLog} (h : (b.calls id).ended = []) :
    Le b (b.setCall id f) where
  err := fun _ h => h
  otherErr := fun _ _ h => h
  plain := Nat.le_refl _
  dials := fun _ d h => ⟨d, h, .refl d⟩
  calls := fun id' hid' => setCall_of_ne (fun heq => hid' (by rw [heq, h])) f

theorem Dial.Le.endCtx (d : Dial) (c : Cause) : d.Le (d.endCtx c) :=
  ⟨rfl, rfl, id, fun c' h => by rw [Dial.endCtx, h]; rfl, fun _ => id⟩

theorem ctxErr_le (h : Le b b') {ctx : Ctx} {e : CtxErr} (he : b.ctxErr ctx = some e) :
    b'.ctxErr ctx = some e := by
  cases ctx with
  | backend => exact h.err e he
  | other n => exact h.otherErr n e he
  | dial i =>
      obtain ⟨c, hc, rfl⟩ := Option.map_eq_some_iff.mp he
      obtain ⟨d, hd, hc⟩ := Option.bind_eq_some_iff.mp hc
      obtain ⟨d', hd', hle⟩ := h.dials i d hd
      simp only [Backend.ctxErr, hd', Option.bind_some, hle.cause c hc, Option.map_some]

/-! ## What became of a call -/

/-- `SendContext` returned this. -/
def Ended (b : Backend) (c : Call) : Option Err → Prop
  | none => (b.calls c.id).handed = [c.packet] ∧ (b.calls c.id).ended = [none]
  | some (.stream x) => (b.calls c.id).handed = [c.packet] ∧ (b.calls c.id).ended = [some x]
  | some (.ctx e) => b.ctxErr c.ctx = some e
  | some .backendDialTimeout => False

theorem ended_of_log {c : Call} {r : Option StreamErr}
    (h : b.calls c.id = ⟨[none], [c.packet], [r]⟩) : Ended b c (r.map .stream) := by
  cases r with
  | none => exact ⟨by rw [h], by rw [h]⟩
  | some x => exact ⟨by rw [h], by rw [h]⟩

theorem Ended.le {c : Call} {err : Option Err} (h : Ended b c err) (hle : Le b b') :
    Ended b' c err := by
  have hcall : ∀ x, (b.calls c.id).ended = [x] → b'.calls c.id = b.calls c.id :=
    fun x hx => hle.calls c.id (by rw [hx]; exact List.cons_ne_nil _ _)
  match err, h with
  | none, h =>
      rw [Ended, hcall _ h.2]
      exact h
  | some (.stream x), h =>
      rw [Ended, hcall _ h.2]
      exact h
  | some (.ctx e), h => exact ctxErr_le hle h

/-- What the caller makes of it, when it has seen `err`. -/
def Known (b : Backend) (i : Nat) (d : Dial) : Option Err → Prop
  | none => (b.calls (.dial i)).handed = [d.packet] ∧ (b.calls (.dial i)).ended = [none]
  | some (.stream x) => (b.calls (.dial i)).ended = [some x] ∧ x.isDeadline = false
  | some (.ctx e) => e = .canceled ∧ ∃ c, d.cause = some c ∧ c.err = e
  | some .backendDialTimeout =>
      (∃ c, d.cause = some c ∧ c.err = .deadlineExceeded) ∨
        ∃ x, (b.calls (.dial i)).ended = [some x] ∧ x.isDeadline = true

theorem Known.le {i : Nat} {d d' : Dial} {err : Option Err} (h : Known b i d err) (hle : Le b b')
    (hd : d.Le d') : Known b' i d' err := by
  have hcall : ∀ x, (b.calls (.dial i)).ended = [x] → b'.calls (.dial i) = b.calls (.dial i) :=
    fun x hx => hle.calls _ (by rw [hx]; exact List.cons_ne_nil _ _)
  match err, h with
  | none, h =>
      rw [Known, hcall _ h.2, hd.packet]
      exact h
  | some (.stream x), h =>
      rw [Known, hcall _ h.1]
      exact h
  | some (.ctx e), ⟨he, c, hc, hce⟩ => exact ⟨he, c, hd.cause c hc, hce⟩
  | some .backendDialTimeout, .inl ⟨c, hc, hce⟩ => exact Or.inl ⟨c, hd.cause c hc, hce⟩
  | some .backendDialTimeout, .inr ⟨x, hx, hdl⟩ =>
      exact Or.inr ⟨x, by rw [hcall _ hx, hx], hdl⟩

/-- A done send context, as the caller classifies it. -/
theorem known_of_cause {i : Nat} {d : Dial} {c : Cause} (h : d.cause = some c) :
    Known b i d (dialTimeout (some (.ctx c.err))) := by
  cases he : c.err with
  | canceled => exact ⟨rfl, c, h, he⟩
  | deadlineExceeded => exact Or.inl ⟨c, h, he⟩

/-- The error of the send, as the caller classifies it. -/
theorem known_of_ended {i : Nat} {d : Dial} {err : Option Err} (hd : b.dials i = some d)
    (h : Ended b ⟨.dial i, .dial i, d.packet⟩ err) : Known b i d (dialTimeout err) := by
  match err, h with
  | none, h => exact h
  | some (.stream x), h =>
      cases hx : x.isDeadline with
      | true =>
          rw [dialTimeout, isDeadlineExceeded, if_pos hx]
          exact Or.inr ⟨x, h.2, hx⟩
      | false =>
          rw [dialTimeout, isDeadlineExceeded, if_neg (by simp [hx])]
          exact ⟨h.2, hx⟩
  | some (.ctx e), h =>
      obtain ⟨c, hc, rfl⟩ := Option.map_eq_some_iff.mp h
      rw [hd] at hc
      exact known_of_cause hc

/-! ## What a dial returned -/

/-- The dial calls `Send` itself: no timeout, and a context that is never
done. -/
def Direct (timeout : Int) (d : Dial) : Prop := timeout ≤ 0 ∧ d.hasDone = false

/-- Why a dial returned this error, its caller's context not being done. -/
inductive Reason (timeout : Int) (b : Backend) (i : Nat) (d : Dial) : Err → Prop
  | dialDeadline (h : d.cause = some .dialDeadline) : Reason timeout b i d .backendDialTimeout
  | backendDeadline (h : d.cause = some (.backend .deadlineExceeded))
      (hb : b.err = some .deadlineExceeded) : Reason timeout b i d .backendDialTimeout
  | streamDeadline (x : StreamErr) (h : (b.calls (.dial i)).ended = [some x])
      (hx : x.isDeadline = true) (hd : ¬ Direct timeout d) :
      Reason timeout b i d .backendDialTimeout
  | stream (x : StreamErr) (h : (b.calls (.dial i)).ended = [some x])
      (hx : x.isDeadline = true → Direct timeout d) : Reason timeout b i d (.stream x)
  | backend (e : CtxErr) (h : b.err = some e) (he : e = .deadlineExceeded → Direct timeout d)
      (hc : ¬ Direct timeout d → d.cause = some (.backend e)) : Reason timeout b i d (.ctx e)

structure RetOk (timeout : Int) (b : Backend) (i : Nat) (d : Dial) (r : Return) : Prop where
  ok : r.err = none →
    (b.calls (.dial i)).handed = [d.packet] ∧ (b.calls (.dial i)).ended = [none]
  caller : ∀ e c, r.err = some e → r.callerErr = some c → e = .ctx c
  reason : ∀ e, r.err = some e → r.callerErr = none → Reason timeout b i d e

theorem Direct.le {d d' : Dial} (hd : d.Le d') : Direct timeout d' ↔ Direct timeout d := by
  rw [Direct, Direct, hd.hasDone]

theorem Reason.le {i : Nat} {d d' : Dial} {e : Err} (h : Reason timeout b i d e) (hle : Le b b')
    (hd : d.Le d') : Reason timeout b' i d' e := by
  have hcall : ∀ x, (b.calls (.dial i)).ended = [x] → (b'.calls (.dial i)).ended = [x] :=
    fun x hx => by rw [hle.calls _ (by rw [hx]; exact List.cons_ne_nil _ _), hx]
  cases h with
  | dialDeadline h => exact .dialDeadline (hd.cause _ h)
  | backendDeadline h hb => exact .backendDeadline (hd.cause _ h) (hle.err _ hb)
  | streamDeadline x h hx hdir =>
      exact .streamDeadline x (hcall _ h) hx (fun hn => hdir ((Direct.le hd).mp hn))
  | stream x h hx => exact .stream x (hcall _ h) (fun hdl => (Direct.le hd).mpr (hx hdl))
  | backend e h he hc =>
      exact .backend e (hle.err _ h) (fun hdl => (Direct.le hd).mpr (he hdl))
        (fun hn => hd.cause _ (hc fun hdir => hn ((Direct.le hd).mpr hdir)))

theorem RetOk.le {i : Nat} {d d' : Dial} {r : Return} (h : RetOk timeout b i d r) (hle : Le b b')
    (hd : d.Le d') : RetOk timeout b' i d' r where
  ok := fun hr => show Known b' i d' none from Known.le (h.ok hr) hle hd
  caller := h.caller
  reason := fun e he hc => (h.reason e he hc).le hle hd

/-! ## Every state -/

/-- A dial that has not returned, and a call of `SendContext` that has not
returned or is still to be made for a dial. -/
inductive Tok where
  | dial (i : Nat)
  | call (id : CallId)
  deriving DecidableEq

/-- A call for a dial that has no send context is made by the dial itself. -/
def Call.tokens (c : Call) : List Tok :=
  match c.id, c.ctx with
  | .dial i, .backend => [.dial i, .call (.dial i)]
  | id, _ => [.call id]

def token : Op → List Tok
  | .start i => [.dial i, .call (.dial i)]
  | .newSendCtx i => [.dial i, .call (.dial i)]
  | .afterFunc i => [.dial i, .call (.dial i)]
  | .goSend i => [.dial i, .call (.dial i)]
  | .select i => [.dial i]
  | .resolve i => [.dial i]
  | .finish i _ => [.dial i]
  | o => (o.call?.map Call.tokens).getD []

theorem call_mem_tokens (c : Call) : .call c.id ∈ c.tokens := by
  unfold Call.tokens
  split
  · next hid _ => simp [hid]
  · simp

theorem tokens_nodup (c : Call) : c.tokens.Nodup := by
  unfold Call.tokens
  split <;> simp

/-- One record: at most one packet was handed over, and the context was not
done when the lock was obtained for it. -/
def LogOk (l : CallLog) : Prop := l.handed = [] ∨ (∃ p, l.handed = [p]) ∧ l.locked = [none]

structure DialOk (timeout : Int) (b : Backend) (H : Tok → Prop) (i : Nat) (d : Dial) :
    Prop where
  packet : (b.calls (.dial i)).handed = [] ∨ (b.calls (.dial i)).handed = [d.packet]
  derived : d.derived = true → ¬ Direct timeout d
  cause : d.cause ≠ none → d.derived = true
  registered : d.registered = true → d.derived = true
  done : d.callerErr ≠ none → d.hasDone = true
  backend : ∀ e, d.cause = some (.backend e) → b.err = some e
  caller : d.cause = some .caller → d.callerErr ≠ none
  returned : d.cause = some .returned → d.returned ≠ none
  errCh : ∀ err, d.errCh = some err →
    ¬ H (.call (.dial i)) ∧ Ended b ⟨.dial i, .dial i, d.packet⟩ err
  ret : ∀ r, d.returned = some r → RetOk timeout b i d r

structure CallsOk (timeout : Int) (b : Backend) (H : Tok → Prop) : Prop where
  absent : ∀ i, b.dials i = none →
    (¬ H (.dial i) ∧ ¬ H (.call (.dial i))) ∧ b.calls (.dial i) = {}
  plain : ∀ n, b.plain ≤ n → ¬ H (.call (.plain n)) ∧ b.calls (.plain n) = {}
  logs : ∀ id, LogOk (b.calls id)
  dials : ∀ i d, b.dials i = some d → DialOk timeout b H i d

def CallOk (timeout : Int) (b : Backend) (c : Call) : Prop :=
  match c.id with
  | .dial i => ∃ d, b.dials i = some d ∧ d.packet = c.packet ∧ d.errCh = none ∧
      (c.ctx = .dial i ∨ c.ctx = .backend ∧ Direct timeout d)
  | .plain n => n < b.plain

/-- Where a dial is before it has started the send. -/
def Early (b : Backend) (i : Nat) (derived : Bool) : Prop :=
  ∃ d, b.dials i = some d ∧ d.derived = derived ∧ d.errCh = none ∧ d.returned = none ∧
    b.calls (.dial i) = {}

/-- Where a dial is while its send goes on. -/
def Waiting (b : Backend) (i : Nat) (d : Dial) : Prop :=
  b.dials i = some d ∧ d.derived = true ∧ d.returned = none

def OpAt (timeout : Int) (b : Backend) : Op → Prop
  | .start i => Early b i false
  | .newSendCtx i => Early b i false ∧ ∃ d, b.dials i = some d ∧ ¬ Direct timeout d
  | .afterFunc i => Early b i true
  | .goSend i => Early b i true
  | .select i => ∃ d, Waiting b i d
  | .resolve i => ∃ d, Waiting b i d
  | .finish i err => ∃ d, Waiting b i d ∧ Known b i d err
  | .check c => CallOk timeout b c ∧ b.calls c.id = {}
  | .lockSend c => CallOk timeout b c ∧ b.calls c.id = {}
  | .recheck c => CallOk timeout b c ∧
      ∃ e, b.calls c.id = ⟨[e], [], []⟩ ∧ (e ≠ none → b.ctxErr c.ctx ≠ none)
  | .streamSend c => CallOk timeout b c ∧ b.calls c.id = ⟨[none], [], []⟩
  | .streamSent c => CallOk timeout b c ∧ b.calls c.id = ⟨[none], [c.packet], []⟩
  | .unlockSend c err => CallOk timeout b c ∧ Ended b c err
  | .ret c err => CallOk timeout b c ∧ Ended b c err
  | _ => True

/-- A step of an operation with these tokens, as those with other tokens see
it. -/
structure Frame (own : List Tok) (b b' : Backend) : Prop where
  le : Le b b'
  calls : ∀ id, .call id ∉ own → b'.calls id = b.calls id
  dials : ∀ i d, b.dials i = some d → ∃ d', b'.dials i = some d' ∧ d.Le d' ∧
    (.call (.dial i) ∉ own → d'.derived = d.derived ∧ (d.errCh = none → d'.errCh = none)) ∧
    (.dial i ∉ own → d'.returned = d.returned)

theorem CallOk.frame {own : List Tok} {c : Call} (h : CallOk timeout b c)
    (hf : Frame own b b') (hc : .call c.id ∉ own) : CallOk timeout b' c := by
  unfold CallOk at h ⊢
  split at h
  · next i hid =>
      obtain ⟨d, hd, hp, hch, hctx⟩ := h
      obtain ⟨d', hd', hle, hcall, -⟩ := hf.dials i d hd
      refine ⟨d', hd', hle.packet.trans hp, (hcall (hid ▸ hc)).2 hch,
        hctx.imp id fun ⟨hb, hdir⟩ => ⟨hb, ?_⟩⟩
      exact (Direct.le hle).mpr hdir
  · exact Nat.lt_of_lt_of_le h hf.le.plain

theorem Early.frame {own : List Tok} {i : Nat} {derived : Bool} (h : Early b i derived)
    (hf : Frame own b b') (hother : ∀ k ∈ [Tok.dial i, .call (.dial i)], k ∉ own) :
    Early b' i derived := by
  obtain ⟨d, hd, hder, hch, hret, hcalls⟩ := h
  obtain ⟨d', hd', -, hcall, hdial⟩ := hf.dials i d hd
  have hi := hother (.dial i) (by simp)
  have hc := hother (.call (.dial i)) (by simp)
  exact ⟨d', hd', (hcall hc).1.trans hder, (hcall hc).2 hch, (hdial hi).trans hret,
    (hf.calls _ hc).trans hcalls⟩

theorem Waiting.frame {own : List Tok} {i : Nat} {d : Dial} (h : Waiting b i d)
    (hf : Frame own b b') (hi : .dial i ∉ own) : ∃ d', Waiting b' i d' ∧ d.Le d' := by
  obtain ⟨hd, hder, hret⟩ := h
  obtain ⟨d', hd', hle, -, hdial⟩ := hf.dials i d hd
  exact ⟨d', ⟨hd', hle.derived hder, (hdial hi).trans hret⟩, hle⟩

/-- What holds of an operation is kept by those with other tokens. -/
theorem OpAt.frame {own : List Tok} {o : Op} (h : OpAt timeout b o) (hf : Frame own b b')
    (hother : ∀ k ∈ token o, k ∉ own) : OpAt timeout b' o := by
  have hcallId : ∀ c : Call, token o = c.tokens → .call c.id ∉ own := fun c hc =>
    hother _ (by rw [hc]; exact call_mem_tokens c)
  cases o with
  | start i => exact Early.frame h hf hother
  | newSendCtx i =>
      obtain ⟨hearly, d, hd, hdir⟩ := h
      obtain ⟨d', hd', hle⟩ := hf.le.dials i d hd
      exact ⟨hearly.frame hf hother, d', hd', fun hn => hdir ((Direct.le hle).mp hn)⟩
  | afterFunc i => exact Early.frame h hf hother
  | goSend i => exact Early.frame h hf hother
  | select i | resolve i =>
      obtain ⟨d, hd⟩ := h
      obtain ⟨d', hd', -⟩ := hd.frame hf (hother _ (List.mem_singleton_self _))
      exact ⟨d', hd'⟩
  | finish i err =>
      obtain ⟨d, hd, hknown⟩ := h
      obtain ⟨d', hd', hle⟩ := hd.frame hf (hother _ (List.mem_singleton_self _))
      exact ⟨d', hd', hknown.le hf.le hle⟩
  | check c | lockSend c | streamSend c | streamSent c =>
      have hc := hcallId c rfl
      exact ⟨h.1.frame hf hc, (hf.calls _ hc).trans h.2⟩
  | recheck c =>
      have hc := hcallId c rfl
      obtain ⟨hok, e, he, hctx⟩ := h
      refine ⟨hok.frame hf hc, e, (hf.calls _ hc).trans he, fun hne => ?_⟩
      obtain ⟨e', he'⟩ := Option.ne_none_iff_exists'.mp (hctx hne)
      rw [ctxErr_le hf.le he']
      exact Option.some_ne_none _
  | unlockSend c err | ret c err => exact ⟨h.1.frame hf (hcallId c rfl), h.2.le hf.le⟩
  | _ => trivial

theorem Frame.same {own : List Tok} {b₁ : Backend} (h : Frame own b b₁) (hs : Same b₁ b') :
    Frame own b b' where
  le := {
    err := fun e he => by rw [hs.err, h.le.err e he]
    otherErr := fun n e he => by rw [hs.otherErr, h.le.otherErr n e he]
    plain := by rw [hs.plain]; exact h.le.plain
    dials := fun i d hd => by rw [hs.dials]; exact h.le.dials i d hd
    calls := fun id hid => by rw [hs.calls, h.le.calls id hid] }
  calls := fun id hid => by rw [hs.calls, h.calls id hid]
  dials := fun i d hd => by rw [hs.dials]; exact h.dials i d hd

theorem Frame.refl (own : List Tok) (b : Backend) : Frame own b b :=
  ⟨(Same.refl b).le, fun _ _ => rfl,
    fun _ d hd => ⟨d, hd, .refl d, fun _ => ⟨rfl, id⟩, fun _ => rfl⟩⟩

theorem frame_setDial {own : List Tok} {i : Nat} {f : Dial → Dial}
    (hf : ∀ d, b.dials i = some d → d.Le (f d))
    (hcall : .call (.dial i) ∉ own →
      ∀ d, (f d).derived = d.derived ∧ (d.errCh = none → (f d).errCh = none))
    (hdial : .dial i ∉ own → ∀ d, (f d).returned = d.returned) :
    Frame own b (b.setDial i f) := by
  refine ⟨le_setDial hf, fun _ _ => rfl, fun j d hd => ?_⟩
  by_cases hji : j = i
  · subst hji
    exact ⟨f d, setDial_some hd f, hf d hd, fun h => hcall h d, fun h => hdial h d⟩
  · exact ⟨d, by rw [setDial_of_ne hji, hd], .refl d, fun _ => ⟨rfl, id⟩, fun _ => rfl⟩

theorem frame_setCall {own : List Tok} {id : CallId} {f : CallLog → CallLog}
    (hown : .call id ∈ own) (hended : (b.calls id).ended = []) : Frame own b (b.setCall id f) :=
  ⟨le_setCall hended, fun _ hid => setCall_of_ne (fun heq => hid (by rw [heq]; exact hown)) f,
    fun _ d hd => ⟨d, hd, .refl d, fun _ => ⟨rfl, fun h => h⟩, fun _ => rfl⟩⟩

theorem DialOk.le {H H' : Tok → Prop} {i : Nat} {d : Dial} (h : DialOk timeout b H i d)
    (hle : Le b b') (hH : H' (.call (.dial i)) → H (.call (.dial i)))
    (hpacket : (b'.calls (.dial i)).handed = [] ∨ (b'.calls (.dial i)).handed = [d.packet]) :
    DialOk timeout b' H' i d :=
  { h with
    packet := hpacket
    backend := fun e he => hle.err e (h.backend e he)
    errCh := fun err herr => ⟨fun hn => (h.errCh err herr).1 (hH hn), (h.errCh err herr).2.le hle⟩
    ret := fun r hr => (h.ret r hr).le hle (.refl d) }

section

variable {H H' : Tok → Prop}

/-- Dials and calls stay as they are. -/
theorem CallsOk.keep_le (h : CallsOk timeout b H) (hle : Le b b') (hdials : b'.dials = b.dials)
    (hcalls : b'.calls = b.calls) (hplain : ∀ n, b'.plain ≤ n → b.plain ≤ n ∧
      (H' (.call (.plain n)) → H (.call (.plain n))))
    (hH : ∀ i, (H' (.dial i) → H (.dial i)) ∧ (H' (.call (.dial i)) → H (.call (.dial i)))) :
    CallsOk timeout b' H' where
  absent := fun i hi => by
    rw [hcalls]
    rw [hdials] at hi
    obtain ⟨⟨hdial, hcall⟩, hlog⟩ := h.absent i hi
    exact ⟨⟨fun hn => hdial ((hH i).1 hn), fun hn => hcall ((hH i).2 hn)⟩, hlog⟩
  plain := fun n hn => by
    rw [hcalls]
    obtain ⟨hn, hHn⟩ := hplain n hn
    exact ⟨fun hn' => (h.plain n hn).1 (hHn hn'), (h.plain n hn).2⟩
  logs := fun id => by rw [hcalls]; exact h.logs id
  dials := fun i d hd => by
    rw [hdials] at hd
    refine (h.dials i d hd).le hle (hH i).2 ?_
    rw [hcalls]
    exact (h.dials i d hd).packet

theorem CallsOk.keep (h : CallsOk timeout b H) (hs : Same b b') (hH : ∀ k, H' k → H k) :
    CallsOk timeout b' H' :=
  h.keep_le hs.le hs.dials hs.calls (fun _ hn => ⟨hs.plain ▸ hn, hH _⟩) fun _ => ⟨hH _, hH _⟩

/-- One dial changes. -/
theorem CallsOk.setDial {i : Nat} {f : Dial → Dial} (h : CallsOk timeout b H)
    (hle : Le b (b.setDial i f)) (hH : ∀ k, H' k → H k)
    (hd : ∀ d, b.dials i = some d → DialOk timeout (b.setDial i f) H' i (f d)) :
    CallsOk timeout (b.setDial i f) H' where
  absent := fun j hj => by
    have hnone : b.dials j = none := by
      by_cases hji : j = i
      · subst hji
        rw [setDial_self] at hj
        exact Option.map_eq_none_iff.mp hj
      · rwa [setDial_of_ne hji] at hj
    obtain ⟨⟨hdial, hcall⟩, hlog⟩ := h.absent j hnone
    exact ⟨⟨fun hn => hdial (hH _ hn), fun hn => hcall (hH _ hn)⟩, hlog⟩
  plain := fun n hn => ⟨fun hn' => (h.plain n hn).1 (hH _ hn'), (h.plain n hn).2⟩
  logs := h.logs
  dials := fun j d hj => by
    by_cases hji : j = i
    · subst hji
      rw [setDial_self] at hj
      obtain ⟨d₀, hd₀, rfl⟩ := Option.map_eq_some_iff.mp hj
      exact hd d₀ hd₀
    · rw [setDial_of_ne hji] at hj
      exact (h.dials j d hj).le hle (hH _) (h.dials j d hj).packet

/-- One record changes, of a call that is going on. -/
theorem CallsOk.setCall {c : Call} {f : CallLog → CallLog} (h : CallsOk timeout b H)
    (hH : ∀ k, H' k → H k) (hid : H (.call c.id)) (hc : CallOk timeout b c)
    (hended : (b.calls c.id).ended = []) (hlog : LogOk (f (b.calls c.id)))
    (hpacket : (f (b.calls c.id)).handed = [] ∨ (f (b.calls c.id)).handed = [c.packet]) :
    CallsOk timeout (b.setCall c.id f) H' where
  absent := fun i hi => by
    obtain ⟨⟨hdial, hcall⟩, hlog⟩ := h.absent i hi
    have hne : CallId.dial i ≠ c.id := fun heq => hcall (heq ▸ hid)
    rw [setCall_of_ne hne]
    exact ⟨⟨fun hn => hdial (hH _ hn), fun hn => hcall (hH _ hn)⟩, hlog⟩
  plain := fun n hn => by
    have hne : CallId.plain n ≠ c.id := fun heq => (h.plain n hn).1 (heq ▸ hid)
    rw [setCall_of_ne hne]
    exact ⟨fun hn' => (h.plain n hn).1 (hH _ hn'), (h.plain n hn).2⟩
  logs := fun id => by
    by_cases hne : id = c.id
    · rw [hne, setCall_self]
      exact hlog
    · rw [setCall_of_ne hne]
      exact h.logs id
  dials := fun i d hd => by
    refine (h.dials i d hd).le (le_setCall hended) (hH _) ?_
    by_cases hne : CallId.dial i = c.id
    · rw [hne, setCall_self]
      obtain ⟨d₀, hd₀, hp, -⟩ : ∃ d, b.dials i = some d ∧ d.packet = c.packet ∧ d.errCh = none ∧
          (c.ctx = .dial i ∨ c.ctx = .backend ∧ Direct timeout d) := by
        unfold CallOk at hc
        rw [← hne] at hc
        exact hc
      rw [show b.dials i = some d from hd] at hd₀
      injection hd₀ with hd₀
      rw [hd₀, hp]
      exact hpacket
    · rw [setCall_of_ne hne]
      exact (h.dials i d hd).packet

end

/-- What an operation has to keep, for the calls `H` that are going on. -/
structure CallStep (timeout : Int) (b : Backend) (H : Tok → Prop) (o : Op) (b' : Backend)
    (ops : List Op) (start : Option (Tid × List Op)) : Prop where
  fresh : (ops.flatMap token ++ Pool.startTokens token start).Nodup ∧
    ∀ k ∈ ops.flatMap token ++ Pool.startTokens token start, k ∈ token o ∨ ¬ H k
  ok : CallsOk timeout b' fun k =>
    k ∈ ops.flatMap token ++ Pool.startTokens token start ∨ (H k ∧ k ∉ token o)
  frame : Frame (token o) b b'
  pushed : ∀ o' ∈ ops, OpAt timeout b' o'
  started : System.StartOk (fun _ => OpAt timeout b') start

/-- An operation that goes on to one other, with the same call or with none. -/
theorem callStep_one {H : Tok → Prop} {o o' : Op} (hH : ∀ k ∈ token o, H k)
    (htok : token o' = token o) (hnd : (token o).Nodup)
    (hok : ∀ {H' : Tok → Prop}, (∀ k, H' k → H k) → CallsOk timeout b' H')
    (hframe : Frame (token o) b b') (hat : OpAt timeout b' o') :
    CallStep timeout b H o b' [o'] none := by
  have hnew : [o'].flatMap token ++ Pool.startTokens (T := Tid) token none = token o := by
    rw [List.flatMap_singleton, htok, Pool.startTokens, List.append_nil]
  refine ⟨⟨hnew ▸ hnd, fun k hk => Or.inl (hnew ▸ hk)⟩, hok fun k hk => ?_, hframe, ?_, trivial⟩
  · rcases hk with hk | hk
    · exact hH k (hnew ▸ hk)
    · exact hk.1
  · intro o'' ho''
    rw [List.mem_singleton.mp ho'']
    exact hat

/-- The caller takes the error out of `errCh`. -/
theorem callStep_receive {H : Tok → Prop} {i : Nat} {d : Dial} {err : Option Err} {o : Op}
    (h : CallsOk timeout b H) (hd : Waiting b i d) (hch : d.errCh = some err)
    (htok : token o = [.dial i]) (hH : ∀ k ∈ token o, H k) :
    CallStep timeout b H o (b.setDial i fun d => { d with errCh := none })
      [.finish i (dialTimeout err)] none := by
  obtain ⟨hd, hder, hret⟩ := hd
  have hle : ∀ d, b.dials i = some d → d.Le { d with errCh := none } :=
    fun d _ => ⟨rfl, rfl, id, fun _ => id, fun _ => id⟩
  have hdial := h.dials i d hd
  refine callStep_one hH htok.symm (by rw [htok]; exact List.nodup_singleton _)
    (fun hH => h.setDial (le_setDial hle) hH fun d' hd' => ?_)
    (frame_setDial hle (fun _ d => ⟨rfl, fun _ => rfl⟩) fun _ _ => rfl) ?_
  · rw [hd] at hd'
    cases hd'
    exact { hdial with
      errCh := nofun
      ret := fun r hr => (hdial.ret r hr).le (le_setDial hle) (hle d hd) }
  · exact ⟨_, ⟨setDial_some hd _, hder, hret⟩,
      (known_of_ended hd (hdial.errCh err hch).2).le (le_setDial hle) (hle d hd)⟩

/-- The return of a dial that had a send context. -/
theorem retOk_finish {H : Tok → Prop} {i : Nat} {d : Dial} {err : Option Err}
    (h : DialOk timeout b H i d) (hd : Waiting b i d) (hknown : Known b i d err) :
    RetOk timeout b i d
      ⟨if err.isSome ∧ d.callerErr.isSome then d.callerErr.map .ctx else err, d.callerErr⟩ := by
  have hdir := h.derived hd.2.1
  have hreturned : d.cause ≠ some .returned := fun hcause => h.returned hcause hd.2.2
  refine ⟨fun hr => ?_, fun e c he hc => ?_, fun e he hc => ?_⟩
  · dsimp only at hr
    split at hr
    · next hboth =>
        rw [Option.map_eq_none_iff] at hr
        rw [hr] at hboth
        cases hboth.2
    · rw [hr] at hknown
      exact hknown
  · dsimp only at he hc
    rw [hc] at he
    split at he
    · injection he with he
      exact he.symm
    · next hnot =>
        refine absurd ⟨?_, rfl⟩ hnot
        rw [he]
        rfl
  · dsimp only at he hc
    rw [if_neg (fun hboth => by rw [hc] at hboth; cases hboth.2)] at he
    rw [he] at hknown
    -- the caller's context is not done, so it is not what ended the send context
    have hcaller : d.cause ≠ some .caller := fun hcause => h.caller hcause hc
    match e, hknown with
    | .stream x, ⟨hx, hdl⟩ => exact .stream x hx (fun ht => by rw [hdl] at ht; cases ht)
    | .ctx e, ⟨he, c, hcause, hce⟩ =>
        subst he
        cases c with
        | dialDeadline => cases hce
        | caller => exact absurd hcause hcaller
        | returned => exact absurd hcause hreturned
        | backend e' =>
            cases hce
            exact .backend _ (h.backend _ hcause) nofun (fun _ => hcause)
    | .backendDialTimeout, .inl ⟨c, hcause, hce⟩ =>
        cases c with
        | dialDeadline => exact .dialDeadline hcause
        | caller => cases hce
        | returned => cases hce
        | backend e' =>
            cases hce
            exact .backendDeadline hcause (h.backend _ hcause)
    | .backendDialTimeout, .inr ⟨x, hx, hdl⟩ => exact .streamDeadline x hx hdl hdir

theorem dial_tokens_nodup (i : Nat) : [Tok.dial i, .call (.dial i)].Nodup := by simp

/-- The send context is made. -/
theorem callStep_newSendCtx {H : Tok → Prop} {i : Nat} (h : CallsOk timeout b H)
    (hat : OpAt timeout b (.newSendCtx i)) (hH : ∀ k ∈ token (.newSendCtx i), H k) :
    CallStep timeout b H (.newSendCtx i)
      (b.setDial i fun d => { d with derived := true, cause := b.err.map .backend })
      [.afterFunc i] none := by
  obtain ⟨⟨d, hd, hder, hch, hret, hcalls⟩, d', hd', hdirect⟩ := hat
  rw [hd] at hd'
  cases hd'
  have hdial := h.dials i d hd
  have hcause : ∀ c, d.cause ≠ some c := fun c hc => by
    have htrue := hdial.cause (by rw [hc]; exact Option.some_ne_none c)
    rw [hder] at htrue
    cases htrue
  have hle : ∀ d', b.dials i = some d' →
      d'.Le { d' with derived := true, cause := b.err.map .backend } := by
    intro d' hd'
    rw [hd] at hd'
    cases hd'
    exact ⟨rfl, rfl, fun _ => rfl, fun c hc => absurd hc (hcause c), fun _ => id⟩
  -- so far only the backend's context can have ended it
  have hnew : ∀ c, b.err.map Cause.backend = some c → ∃ e, b.err = some e ∧ c = .backend e := by
    intro c hc
    obtain ⟨e, he, rfl⟩ := Option.map_eq_some_iff.mp hc
    exact ⟨e, he, rfl⟩
  refine callStep_one hH rfl (dial_tokens_nodup i)
    (fun hH => h.setDial (le_setDial hle) hH fun d' hd' => ?_)
    (frame_setDial hle (fun hn => absurd (by simp [token]) hn)
      fun hn => absurd (by simp [token]) hn)
    ⟨_, setDial_some hd _, rfl, hch, hret, hcalls⟩
  rw [hd] at hd'
  cases hd'
  refine ⟨hdial.packet, fun _ => hdirect, fun _ => rfl, fun _ => rfl, hdial.done, fun e hc => ?_,
    fun hc => ?_, fun hc => ?_, fun err herr => ?_, fun r hr => ?_⟩
  · obtain ⟨e', he', heq⟩ := hnew _ hc
    cases heq
    exact he'
  · obtain ⟨_, _, heq⟩ := hnew _ hc
    cases heq
  · obtain ⟨_, _, heq⟩ := hnew _ hc
    cases heq
  · cases hch.symm.trans herr
  · cases hret.symm.trans hr

theorem callStep_afterFunc {H : Tok → Prop} {i : Nat} (h : CallsOk timeout b H)
    (hat : OpAt timeout b (.afterFunc i)) (hH : ∀ k ∈ token (.afterFunc i), H k) :
    CallStep timeout b H (.afterFunc i) (b.setDial i fun d => { d with registered := true })
      [.goSend i] none := by
  obtain ⟨d, hd, hder, hch, hret, hcalls⟩ := hat
  have hdial := h.dials i d hd
  have hle : ∀ d', b.dials i = some d' → d'.Le { d' with registered := true } :=
    fun d' _ => ⟨rfl, rfl, id, fun _ => id, fun _ => id⟩
  refine callStep_one hH rfl (dial_tokens_nodup i)
    (fun hH => h.setDial (le_setDial hle) hH fun d' hd' => ?_)
    (frame_setDial hle (fun _ d => ⟨rfl, id⟩) fun _ d => rfl)
    ⟨_, setDial_some hd _, hder, hch, hret, hcalls⟩
  rw [hd] at hd'
  cases hd'
  exact { hdial.le (le_setDial hle) (hH _) hdial.packet with
    registered := fun _ => hder
    ret := fun r hr => by cases hret.symm.trans hr }

/-- The call goes from the caller to the goroutine it starts. -/
theorem callStep_goSend {H : Tok → Prop} {i : Nat} {d : Dial} (h : CallsOk timeout b H)
    (hd : b.dials i = some d) (hat : OpAt timeout b (.goSend i))
    (hH : ∀ k ∈ token (.goSend i), H k) :
    CallStep timeout b H (.goSend i) b [.select i]
      (some (.sender i, [.check ⟨.dial i, .dial i, d.packet⟩])) := by
  obtain ⟨d', hd', hder, hch, hret, hcalls⟩ := hat
  rw [hd] at hd'
  cases hd'
  refine ⟨⟨dial_tokens_nodup i, fun k hk => Or.inl hk⟩, h.keep (.refl b) fun k hk => ?_,
    .refl _ b, ?_, ?_⟩
  · rcases hk with hk | hk
    · exact hH k hk
    · exact hk.1
  · intro o' ho'
    rw [List.mem_singleton.mp ho']
    exact ⟨d, hd, hder, hret⟩
  · intro o' ho'
    rw [List.mem_singleton.mp ho']
    exact ⟨⟨d, hd, rfl, hch, Or.inl rfl⟩, hcalls⟩

theorem callStep_finish {H : Tok → Prop} {i : Nat} {d : Dial} {err : Option Err}
    {r : Dial → Return} (h : CallsOk timeout b H) (hwait : Waiting b i d)
    (hret : RetOk timeout b i d (r d)) :
    CallStep timeout b H (.finish i err)
      (b.setDial i fun d =>
        { d.endCtx .returned with returned := some (r d), registered := false })
      [] none := by
  have hd := hwait.1
  have hdial := h.dials i d hd
  have hle : ∀ d', b.dials i = some d' → d'.Le
      { d'.endCtx .returned with returned := some (r d'), registered := false } :=
    fun d' _ => ⟨rfl, rfl, id, (Dial.Le.endCtx d' .returned).cause, fun _ => id⟩
  have hcause : ∀ c, (d.endCtx .returned).cause = some c → c ≠ .returned → d.cause = some c := by
    intro c hc hne
    cases hcause : d.cause with
    | some c' =>
        rw [Dial.endCtx, hcause] at hc
        exact hc
    | none =>
        rw [Dial.endCtx, hcause] at hc
        injection hc with hc
        exact absurd hc.symm hne
  have hHsub : ∀ k, (k ∈ ([] : List Op).flatMap token ++ Pool.startTokens (T := Tid) token none ∨
      (H k ∧ k ∉ token (.finish i err))) → H k := by
    rintro k (hk | hk)
    · cases hk
    · exact hk.1
  refine ⟨⟨List.nodup_nil, nofun⟩, h.setDial (le_setDial hle) hHsub fun d' hd' => ?_,
    frame_setDial hle (fun _ d => ⟨rfl, id⟩) (fun hn => absurd (by simp [token]) hn),
    fun o' ho' => absurd ho' List.not_mem_nil, trivial⟩
  rw [hd] at hd'
  cases hd'
  refine ⟨hdial.packet, hdial.derived, fun _ => hwait.2.1, nofun, hdial.done,
    fun e hc => hdial.backend e (hcause _ hc nofun), fun hc => hdial.caller (hcause _ hc nofun),
    fun _ => Option.some_ne_none _, fun err' herr => ?_, fun r' hr => ?_⟩
  · obtain ⟨hcall, hended⟩ := hdial.errCh err' herr
    exact ⟨fun hk => hcall (hHsub _ hk), hended.le (le_setDial hle)⟩
  · injection hr with hr
    subst hr
    exact hret.le (le_setDial hle) (hle d hd)

theorem Waiting.eq {i : Nat} {d d' : Dial} (h : Waiting b i d') (hd : b.dials i = some d) :
    d' = d :=
  Option.some.inj (h.1.symm.trans hd)

theorem execDial_calls {H : Tok → Prop} {pick : Pick} {i : Nat} {d : Dial} {o : Op}
    {ops : List Op} {start : Option (Tid × List Op)} (h : CallsOk timeout b H)
    (hd : b.dials i = some d) (hat : OpAt timeout b o) (hH : ∀ k ∈ token o, H k)
    (ho : o.dial? = some i) (hex : execDial timeout b pick i d o = some (b', ops, start)) :
    CallStep timeout b H o b' ops start := by
  have hkeep : ∀ {H' : Tok → Prop}, (∀ k, H' k → H k) → CallsOk timeout b H' :=
    fun hH => h.keep (.refl b) hH
  cases o with
  | start j =>
      cases ho
      obtain ⟨d', hd', hder, hch, hret, hcalls⟩ := hat
      rw [hd] at hd'
      cases hd'
      simp only [execDial] at hex
      split at hex
      · next hdirect =>
          cases hex
          exact callStep_one hH rfl (dial_tokens_nodup i) hkeep (.refl _ b)
            ⟨⟨d, hd, rfl, hch, Or.inr ⟨rfl, hdirect⟩⟩, hcalls⟩
      · next hdirect =>
          cases hex
          exact callStep_one hH rfl (dial_tokens_nodup i) hkeep (.refl _ b)
            ⟨⟨d, hd, hder, hch, hret, hcalls⟩, d, hd, hdirect⟩
  | newSendCtx j =>
      cases ho
      cases hex
      exact callStep_newSendCtx h hat hH
  | afterFunc j =>
      cases ho
      cases hex
      exact callStep_afterFunc h hat hH
  | goSend j =>
      cases ho
      cases hex
      exact callStep_goSend h hd hat hH
  | select j =>
      cases ho
      obtain ⟨d', hwait⟩ := hat
      cases hwait.eq hd
      simp only [execDial] at hex
      split at hex
      · obtain ⟨c, -, hex⟩ := Option.map_eq_some_iff.mp hex
        cases hex
        exact callStep_one hH rfl (List.nodup_singleton _) hkeep (.refl _ b) ⟨_, hwait⟩
      · obtain ⟨err, herr, hex⟩ := Option.map_eq_some_iff.mp hex
        cases hex
        exact callStep_receive h hwait herr rfl hH
  | resolve j =>
      cases ho
      obtain ⟨d', hwait⟩ := hat
      cases hwait.eq hd
      simp only [execDial] at hex
      split at hex
      · next err herr =>
          cases hex
          exact callStep_receive h hwait herr rfl hH
      · obtain ⟨c, hc, hex⟩ := Option.map_eq_some_iff.mp hex
        cases hex
        exact callStep_one hH rfl (List.nodup_singleton _) hkeep (.refl _ b)
          ⟨_, hwait, known_of_cause hc⟩
  | finish j err =>
      cases ho
      obtain ⟨d', hwait, hknown⟩ := hat
      cases hwait.eq hd
      cases hex
      exact callStep_finish (r := fun d' => ⟨_, d'.callerErr⟩) h hwait
        (retOk_finish (h.dials _ _ hd) hwait hknown)
  | _ => cases ho

/-- An operation after which nothing of its call is left to do. -/
theorem callStep_last {H : Tok → Prop} {o : Op}
    (hok : CallsOk timeout b' fun k => H k ∧ k ∉ token o) (hframe : Frame (token o) b b') :
    CallStep timeout b H o b' [] none := by
  refine ⟨⟨List.nodup_nil, nofun⟩, ?_, hframe, fun o' ho' => absurd ho' List.not_mem_nil, trivial⟩
  have hnone : (fun k =>
      k ∈ ([] : List Op).flatMap token ++ Pool.startTokens (T := Tid) token none ∨
        (H k ∧ k ∉ token o)) = fun k => H k ∧ k ∉ token o := by
    funext k
    simp [Pool.startTokens]
  rw [hnone]
  exact hok

/-- `SendContext` returns to the goroutine of a dial. -/
theorem callStep_errCh {H : Tok → Prop} {c : Call} {i : Nat} {d : Dial} {err : Option Err}
    (h : CallsOk timeout b H) (hid : c.id = .dial i) (hd : b.dials i = some d)
    (hended : Ended b ⟨.dial i, .dial i, d.packet⟩ err) :
    CallStep timeout b H (.ret c err) (b.setDial i fun d => { d with errCh := some err }) []
      none := by
  have htok : .call (.dial i) ∈ token (.ret c err) := hid ▸ call_mem_tokens c
  have hdial := h.dials i d hd
  have hle : ∀ d', b.dials i = some d' → d'.Le { d' with errCh := some err } :=
    fun d' _ => ⟨rfl, rfl, id, fun _ => id, fun _ => id⟩
  refine callStep_last (h.setDial (le_setDial hle) (fun k hk => hk.1) fun d' hd' => ?_)
    (frame_setDial hle (fun hn => absurd htok hn) fun _ _ => rfl)
  rw [hd] at hd'
  cases hd'
  exact { hdial with
    errCh := fun err' herr => by
      cases herr
      exact ⟨fun hn => hn.2 htok, hended.le (le_setDial hle)⟩
    ret := fun r hr => (hdial.ret r hr).le (le_setDial hle) (hle d hd) }

/-- The return of a dial that had no send context. -/
theorem retOk_direct {i : Nat} {d : Dial} {err : Option Err} (hdir : Direct timeout d)
    (hcaller : d.callerErr = none) (hended : Ended b ⟨.dial i, .backend, d.packet⟩ err) :
    RetOk timeout b i d ⟨err, d.callerErr⟩ := by
  refine ⟨fun hr => ?_, fun e c _ hc => ?_, fun e he _ => ?_⟩
  · cases hr
    exact hended
  · rw [hcaller] at hc
    cases hc
  · cases he
    match e, hended with
    | .stream x, hended => exact .stream x hended.2 fun _ => hdir
    | .ctx e, hended => exact .backend e hended (fun _ => hdir) fun hn => absurd hdir hn

/-- `SendContext` returns to the dial itself. -/
theorem callStep_direct {H : Tok → Prop} {c : Call} {i : Nat} {d : Dial} {err : Option Err}
    (h : CallsOk timeout b H) (hid : c.id = .dial i) (hctx : c.ctx = .backend)
    (hd : b.dials i = some d) (hdir : Direct timeout d)
    (hended : Ended b ⟨.dial i, .backend, d.packet⟩ err) :
    CallStep timeout b H (.ret c err)
      (b.setDial i fun d => { d with returned := some ⟨err, d.callerErr⟩ }) [] none := by
  have htok : .dial i ∈ token (.ret c err) := by
    show .dial i ∈ c.tokens
    rw [Call.tokens, hid, hctx]
    exact List.mem_cons_self
  have hdial := h.dials i d hd
  have hcaller : d.callerErr = none := by
    cases hc : d.callerErr with
    | none => rfl
    | some e =>
        have hdone := hdial.done (by rw [hc]; exact Option.some_ne_none e)
        rw [hdir.2] at hdone
        cases hdone
  have hle : ∀ d', b.dials i = some d' →
      d'.Le { d' with returned := some ⟨err, d'.callerErr⟩ } :=
    fun d' _ => ⟨rfl, rfl, id, fun _ => id, fun _ => id⟩
  refine callStep_last (h.setDial (le_setDial hle) (fun k hk => hk.1) fun d' hd' => ?_)
    (frame_setDial hle (fun _ _ => ⟨rfl, fun h => h⟩) fun hn => absurd htok hn)
  rw [hd] at hd'
  cases hd'
  refine { hdial with
    returned := fun _ => Option.some_ne_none _
    errCh := fun err' herr => ?_
    ret := fun r hr => ?_ }
  · obtain ⟨hcall, hended'⟩ := hdial.errCh err' herr
    exact ⟨fun hk => hcall hk.1, hended'.le (le_setDial hle)⟩
  · injection hr with hr
    subst hr
    exact (retOk_direct hdir hcaller hended).le (le_setDial hle) (hle d hd)

theorem execRet_calls {H : Tok → Prop} {c : Call} {err : Option Err} {ops : List Op}
    {start : Option (Tid × List Op)} (h : CallsOk timeout b H) (hc : CallOk timeout b c)
    (hended : Ended b c err) (hex : execRet b c err = some (b', ops, start)) :
    CallStep timeout b H (.ret c err) b' ops start := by
  obtain ⟨id, ctx, p⟩ := c
  unfold execRet at hex
  cases id with
  | plain n =>
      cases hex
      exact callStep_last (h.keep (.refl b) fun k hk => hk.1) (.refl _ b)
  | dial i =>
      obtain ⟨d, hd, rfl, hch, hctx⟩ := hc
      rcases hctx with hctx | ⟨hctx, hdir⟩
      · cases hctx
        simp only [hd, Option.bind_some, hch, Option.isSome_none] at hex
        cases hex
        exact callStep_errCh h rfl hd hended
      · cases hctx
        cases hex
        exact callStep_direct h rfl rfl hd hdir hended

/-- An operation of a call that writes something down about it. -/
theorem callStep_log {H : Tok → Prop} {c : Call} {o o' : Op} {f : CallLog → CallLog}
    (h : CallsOk timeout b H) (hH : ∀ k ∈ token o, H k) (htok : token o = c.tokens)
    (htok' : token o' = c.tokens) (hc : CallOk timeout b c)
    (hended : (b.calls c.id).ended = []) (hlog : LogOk (f (b.calls c.id)))
    (hpacket : (f (b.calls c.id)).handed = [] ∨ (f (b.calls c.id)).handed = [c.packet])
    (hs : Same (b.setCall c.id f) b') (hat : OpAt timeout b' o') :
    CallStep timeout b H o b' [o'] none := by
  have hown : .call c.id ∈ token o := htok ▸ call_mem_tokens c
  have hok : CallsOk timeout (b.setCall c.id f) H :=
    h.setCall (fun _ hk => hk) (hH _ hown) hc hended hlog hpacket
  exact callStep_one hH (htok'.trans htok.symm) (htok ▸ tokens_nodup c)
    (fun hsub => hok.keep hs hsub) ((frame_setCall hown hended).same hs) hat

theorem execSend_calls {H : Tok → Prop} {pick : Pick} {c : Call} {o : Op} {ops : List Op}
    {start : Option (Tid × List Op)} (h : CallsOk timeout b H) (hat : OpAt timeout b o)
    (hH : ∀ k ∈ token o, H k) (hc : o.call? = some c)
    (hex : execSend b pick c o = some (b', ops, start)) : CallStep timeout b H o b' ops start := by
  have hkeep : ∀ {H' : Tok → Prop}, (∀ k, H' k → H k) → CallsOk timeout b H' :=
    fun hH => h.keep (.refl b) hH
  cases o with
  | check c' =>
      cases hc
      simp only [execSend] at hex
      split at hex
      · next e he =>
          cases hex
          exact callStep_one hH rfl (tokens_nodup c) hkeep (.refl _ b) ⟨hat.1, he⟩
      · cases hex
        exact callStep_one hH rfl (tokens_nodup c) hkeep (.refl _ b) hat
  | lockSend c' =>
      cases hc
      simp only [execSend] at hex
      split at hex
      · obtain ⟨e, he, hex⟩ := Option.map_eq_some_iff.mp hex
        cases hex
        exact callStep_one hH rfl (tokens_nodup c) hkeep (.refl _ b) ⟨hat.1, he⟩
      · split at hex
        · cases hex
        · cases hex
          have hctx : ∀ ctx, ({ b with sendLock := true }.setCall c.id fun l =>
              { l with locked := l.locked ++ [b.ctxErr c.ctx] }).ctxErr ctx = b.ctxErr ctx :=
            fun ctx => by cases ctx <;> rfl
          refine callStep_log (f := fun l => { l with locked := l.locked ++ [b.ctxErr c.ctx] }) h hH
            rfl rfl hat.1 (by rw [hat.2]) ?_ ?_ ⟨rfl, rfl, rfl, rfl, rfl⟩
            ⟨hat.1, b.ctxErr c.ctx, ?_, fun hne => by rw [hctx]; exact hne⟩
          · exact Or.inl (by rw [hat.2])
          · exact Or.inl (by rw [hat.2])
          · rw [setCall_self, hat.2]
            rfl
  | recheck c' =>
      cases hc
      obtain ⟨hok, e, he, hlate⟩ := hat
      simp only [execSend] at hex
      split at hex
      · next e' he' =>
          cases hex
          exact callStep_one hH rfl (tokens_nodup c) hkeep (.refl _ b) ⟨hok, he'⟩
      · next hnone =>
          cases hex
          have hnotlate : e = none := Classical.byContradiction fun hne => hlate hne hnone
          subst hnotlate
          exact callStep_one hH rfl (tokens_nodup c) hkeep (.refl _ b) ⟨hok, he⟩
  | streamSend c' =>
      cases hc
      cases hex
      refine callStep_log (f := fun l => { l with handed := l.handed ++ [c.packet] }) h hH rfl rfl
        hat.1 (by rw [hat.2]) ?_ ?_ ⟨rfl, rfl, rfl, rfl, rfl⟩ ⟨hat.1, ?_⟩
      · exact Or.inr ⟨⟨c.packet, by rw [hat.2]; rfl⟩, by rw [hat.2]⟩
      · exact Or.inr (by rw [hat.2]; rfl)
      · rw [setCall_self, hat.2]
        rfl
  | streamSent c' =>
      cases hc
      cases hex
      refine callStep_log (f := fun l => { l with ended := l.ended ++ [pick.sent] }) h hH rfl rfl
        hat.1 (by rw [hat.2]) ?_ ?_ ⟨rfl, rfl, rfl, rfl, rfl⟩ ⟨hat.1, ?_⟩
      · exact Or.inr ⟨⟨c.packet, by rw [hat.2]⟩, by rw [hat.2]⟩
      · exact Or.inr (by rw [hat.2])
      · exact ended_of_log (by rw [setCall_self, hat.2]; rfl)
  | unlockSend c' err =>
      cases hc
      simp only [execSend] at hex
      split at hex
      · cases hex
        have hs : Same b { b with sendLock := false } := ⟨rfl, rfl, rfl, rfl, rfl⟩
        exact callStep_one hH rfl (tokens_nodup c) (fun hH => h.keep hs hH)
          ((Frame.refl _ b).same hs) ⟨hat.1, hat.2.le hs.le⟩
      · cases hex
  | ret c' err =>
      cases hc
      exact execRet_calls h hat.1 hat.2 hex
  | _ => cases hc

/-- Another goroutine makes a call. -/
theorem callStep_plain {H : Tok → Prop} {ctx : Ctx} {p : Packet} (h : CallsOk timeout b H) :
    CallStep timeout b H (.sendContext ctx p) { b with plain := b.plain + 1 }
      [.check ⟨.plain b.plain, ctx, p⟩] none := by
  obtain ⟨hfree, hlog⟩ := h.plain b.plain (Nat.le_refl _)
  have hle : Le b { b with plain := b.plain + 1 } :=
    ⟨fun _ => id, fun _ _ => id, Nat.le_succ _, fun _ d hd => ⟨d, hd, .refl d⟩, fun _ _ => rfl⟩
  have hnew : [Op.check ⟨.plain b.plain, ctx, p⟩].flatMap token ++
      Pool.startTokens (T := Tid) token none = [.call (.plain b.plain)] := rfl
  refine ⟨?_, ?_,
    ⟨hle, fun _ _ => rfl, fun _ d hd => ⟨d, hd, .refl d, fun _ => ⟨rfl, fun hd => hd⟩,
      fun _ => rfl⟩⟩,
    ?_, trivial⟩
  · rw [hnew]
    refine ⟨List.nodup_singleton _, fun k hk => Or.inr ?_⟩
    rw [List.mem_singleton.mp hk]
    exact hfree
  · rw [hnew]
    refine h.keep_le hle rfl rfl (fun n hn => ⟨Nat.le_of_succ_le hn, fun hk => ?_⟩) fun i => ?_
    · rcases hk with hk | hk
      · cases List.mem_singleton.mp hk
        exact absurd hn (Nat.not_succ_le_self _)
      · exact hk.1
    · refine ⟨fun hk => ?_, fun hk => ?_⟩
      · exact (hk.resolve_left fun hk => nomatch List.mem_singleton.mp hk).1
      · exact (hk.resolve_left fun hk => nomatch List.mem_singleton.mp hk).1
  · intro o' ho'
    rw [List.mem_singleton.mp ho']
    exact ⟨Nat.lt_succ_self _, hlog⟩

/-- The queue makes calls with the backend's context. -/
theorem execQueue_calls {H : Tok → Prop} {o : Op} {ops : List Op}
    {start : Option (Tid × List Op)} (h : CallsOk timeout b H) (hd : o.dial? = none)
    (hc : o.call? = none) (hex : execQueue b o = some (b', ops, start)) :
    CallStep timeout b H o b' ops start := by
  have hquiet : Same b b' → ops.flatMap token ++ Pool.startTokens token start = [] →
      (∀ o' ∈ ops, OpAt timeout b' o') → System.StartOk (fun _ => OpAt timeout b') start →
      CallStep timeout b H o b' ops start := by
    intro hs hnew hpushed hstarted
    refine ⟨by rw [hnew]; exact ⟨List.nodup_nil, nofun⟩, ?_, (Frame.refl _ b).same hs, hpushed,
      hstarted⟩
    rw [hnew]
    refine h.keep hs fun k hk => ?_
    rcases hk with hk | hk
    · cases hk
    · exact hk.1
  cases o with
  | sendContext ctx p =>
      cases hex
      exact callStep_plain h
  | queueLock =>
      simp only [execQueue] at hex
      split at hex
      · cases hex
      · cases hex
        exact hquiet ⟨rfl, rfl, rfl, rfl, rfl⟩ rfl
          (fun _ ho' => absurd ho' List.not_mem_nil) trivial
  | queueAppend p =>
      simp only [execQueue] at hex
      split at hex
      · cases hex
        exact hquiet ⟨rfl, rfl, rfl, rfl, rfl⟩ rfl
          (fun _ ho' => absurd ho' List.not_mem_nil) trivial
      · cases hex
        refine hquiet ⟨rfl, rfl, rfl, rfl, rfl⟩ rfl (fun _ ho' => absurd ho' List.not_mem_nil) ?_
        intro o' ho'
        simp only [sendQueued, List.mem_cons, List.not_mem_nil, or_false] at ho'
        rcases ho' with rfl | rfl <;> trivial
  | queuePop =>
      simp only [execQueue] at hex
      split at hex
      · cases hex
        exact hquiet ⟨rfl, rfl, rfl, rfl, rfl⟩ rfl
          (fun _ ho' => absurd ho' List.not_mem_nil) trivial
      · cases hex
        refine hquiet ⟨rfl, rfl, rfl, rfl, rfl⟩ rfl (fun o' ho' => ?_) trivial
        simp only [sendQueued, List.mem_cons, List.not_mem_nil, or_false] at ho'
        rcases ho' with rfl | rfl | rfl <;> trivial
  | check c | lockSend c | recheck c | streamSend c | streamSent c | unlockSend c e | ret c e =>
      cases hc
  | _ => cases hd

theorem exec_calls {H : Tok → Prop} {t : Tid} {pick : Pick} {o : Op} {ops : List Op}
    {start : Option (Tid × List Op)} (h : CallsOk timeout b H) (hat : OpAt timeout b o)
    (hH : ∀ k ∈ token o, H k) (hex : exec timeout b t pick o = some (b', ops, start)) :
    CallStep timeout b H o b' ops start := by
  unfold exec at hex
  split at hex
  · next i c hi =>
      obtain ⟨d, hd, hex⟩ := Option.bind_eq_some_iff.mp hex
      exact execDial_calls h hd hat hH hi hex
  · next c _ hc => exact execSend_calls h hat hH hc hex
  · next hi hc => exact execQueue_calls h hi hc hex

/-! ## Events -/

/-- What an event has to keep. -/
structure CallEvent (timeout : Int) (b : Backend) (H : Tok → Prop) (b' : Backend)
    (start : Option (Tid × List Op)) : Prop where
  fresh : (Pool.startTokens token start).Nodup ∧ ∀ k ∈ Pool.startTokens token start, ¬ H k
  ok : CallsOk timeout b' fun k => k ∈ Pool.startTokens token start ∨ H k
  frame : Frame [] b b'
  started : System.StartOk (fun _ => OpAt timeout b') start

/-- An event that starts nothing of a dial or a call. -/
theorem callEvent_quiet {H : Tok → Prop} {start : Option (Tid × List Op)}
    (htok : Pool.startTokens token start = [])
    (hok : ∀ {H' : Tok → Prop}, (∀ k, H' k → H k) → CallsOk timeout b' H')
    (hframe : Frame [] b b') (hstarted : System.StartOk (fun _ => OpAt timeout b') start) :
    CallEvent timeout b H b' start := by
  refine ⟨by rw [htok]; exact ⟨List.nodup_nil, nofun⟩, ?_, hframe, hstarted⟩
  rw [htok]
  exact hok fun k hk => hk.resolve_left List.not_mem_nil

theorem addDial_self (i : Nat) (d : Dial) : (b.addDial i d).dials i = some d := by
  unfold Backend.addDial
  exact Function.update_self ..

theorem addDial_of_ne {i j : Nat} (h : j ≠ i) (d : Dial) :
    (b.addDial i d).dials j = b.dials j := by
  unfold Backend.addDial
  exact Function.update_of_ne h ..

theorem frame_addDial {i : Nat} (hnone : b.dials i = none) (d : Dial) :
    Frame [] b (b.addDial i d) := by
  have hother : ∀ j d', b.dials j = some d' → (b.addDial i d).dials j = some d' := by
    intro j d' hd'
    rw [addDial_of_ne, hd']
    rintro rfl
    rw [hnone] at hd'
    cases hd'
  refine ⟨⟨fun _ => id, fun _ _ => id, Nat.le_refl _,
    fun j d' hd' => ⟨d', hother j d' hd', .refl d'⟩,
    fun _ _ => rfl⟩, fun _ _ => rfl, fun j d' hd' => ?_⟩
  exact ⟨d', hother j d' hd', .refl d', fun _ => ⟨rfl, fun h => h⟩, fun _ => rfl⟩

/-- A dial is made. -/
theorem callEvent_dial {H : Tok → Prop} {i : Nat} {p : Packet} {hasDone : Bool}
    (h : CallsOk timeout b H) (hnone : b.dials i = none) :
    CallEvent timeout b H (b.addDial i { packet := p, hasDone := hasDone })
      (some (.caller i, [.start i])) := by
  obtain ⟨⟨hdial, hcall⟩, hlog⟩ := h.absent i hnone
  have hframe := frame_addDial hnone { packet := p, hasDone := hasDone }
  have hnew : Pool.startTokens token (some (Tid.caller i, [Op.start i])) =
      [.dial i, .call (.dial i)] := rfl
  -- the tokens of the other dials are held as before
  have hH : ∀ j, j ≠ i → ∀ k ∈ [Tok.dial j, .call (.dial j)],
      k ∉ [Tok.dial i, .call (.dial i)] := by
    intro j hj k hk
    simp only [List.mem_cons, List.not_mem_nil, or_false] at hk
    rcases hk with rfl | rfl
    · simpa using hj
    · simpa using hj
  refine ⟨?_, ⟨fun j hj => ?_, fun n hn => ?_, h.logs, fun j d hj => ?_⟩, hframe, ?_⟩
  · rw [hnew]
    refine ⟨dial_tokens_nodup i, fun k hk => ?_⟩
    simp only [List.mem_cons, List.not_mem_nil, or_false] at hk
    rcases hk with rfl | rfl
    · exact hdial
    · exact hcall
  · have hji : j ≠ i := by
      rintro rfl
      rw [addDial_self] at hj
      cases hj
    rw [addDial_of_ne hji] at hj
    obtain ⟨⟨hdj, hcj⟩, hlj⟩ := h.absent j hj
    refine ⟨⟨fun hk => ?_, fun hk => ?_⟩, hlj⟩
    · exact hk.elim (hH j hji _ (by simp)) hdj
    · exact hk.elim (hH j hji _ (by simp)) hcj
  · refine ⟨fun hk => hk.elim (fun hk => ?_) (h.plain n hn).1, (h.plain n hn).2⟩
    rw [hnew] at hk
    simp at hk
  · by_cases hji : j = i
    · subst hji
      rw [addDial_self] at hj
      cases hj
      exact ⟨Or.inl (by rw [show (b.addDial j _).calls = b.calls from rfl, hlog]), nofun,
        fun hc => absurd rfl hc, nofun, fun hc => absurd rfl hc, nofun, nofun, nofun, nofun, nofun⟩
    · rw [addDial_of_ne hji] at hj
      refine (h.dials j d hj).le hframe.le (fun hk => ?_) (h.dials j d hj).packet
      exact hk.resolve_left (hH j hji _ (by simp))
  · intro o' ho'
    rw [List.mem_singleton.mp ho']
    exact ⟨_, addDial_self .., rfl, rfl, rfl, hlog⟩

/-- The context of a dial's caller is done. -/
theorem callEvent_callerDone {H : Tok → Prop} {i : Nat} {d : Dial} {e : CtxErr}
    (h : CallsOk timeout b H) (hd : b.dials i = some d) (hdone : d.hasDone = true) :
    CallEvent timeout b H
      (b.setDial i fun d => { d with callerErr := some (d.callerErr.getD e) }) none := by
  have hdial := h.dials i d hd
  have hle : ∀ d', b.dials i = some d' →
      d'.Le { d' with callerErr := some (d'.callerErr.getD e) } :=
    fun d' _ => ⟨rfl, rfl, id, fun _ => id, fun e' he' => by rw [he']; rfl⟩
  refine callEvent_quiet rfl (fun hH => h.setDial (le_setDial hle) hH fun d' hd' => ?_)
    (frame_setDial hle (fun _ _ => ⟨rfl, fun h => h⟩) fun _ _ => rfl) trivial
  rw [hd] at hd'
  cases hd'
  exact { hdial with
    done := fun _ => hdone
    caller := fun _ => Option.some_ne_none _
    errCh := fun err herr =>
      ⟨fun hk => (hdial.errCh err herr).1 (hH _ hk), (hdial.errCh err herr).2.le (le_setDial hle)⟩
    ret := fun r hr => (hdial.ret r hr).le (le_setDial hle) (hle d hd) }

/-- The send context of a dial is done. -/
theorem callEvent_endDial {H : Tok → Prop} {i : Nat} {d : Dial} {c : Cause}
    (h : CallsOk timeout b H) (hd : b.dials i = some d) (hder : d.derived = true)
    (hbackend : ∀ e, c = .backend e → b.err = some e) (hcaller : c = .caller → d.callerErr ≠ none)
    (hc : c ≠ .returned) : CallEvent timeout b H (b.setDial i fun d => d.endCtx c) none := by
  have hdial := h.dials i d hd
  have hle : ∀ d', b.dials i = some d' → d'.Le (d'.endCtx c) := fun d' _ => .endCtx d' c
  have hcause : ∀ c', (d.endCtx c).cause = some c' → d.cause = some c' ∨ c' = c := by
    intro c' hc'
    unfold Dial.endCtx at hc'
    cases hd : d.cause with
    | none =>
        rw [hd] at hc'
        exact Or.inr (Option.some.inj hc').symm
    | some c₀ =>
        rw [hd] at hc'
        exact Or.inl hc'
  refine callEvent_quiet rfl (fun hH => h.setDial (le_setDial hle) hH fun d' hd' => ?_)
    (frame_setDial hle (fun _ _ => ⟨rfl, fun h => h⟩) fun _ _ => rfl) trivial
  rw [hd] at hd'
  cases hd'
  exact { hdial with
    cause := fun _ => hder
    backend := fun e he => (hcause _ he).elim (hdial.backend e) fun heq => hbackend e heq.symm
    caller := fun he => (hcause _ he).elim hdial.caller fun heq => hcaller heq.symm
    returned := fun he => (hcause _ he).elim hdial.returned fun heq => absurd heq.symm hc
    errCh := fun err herr =>
      ⟨fun hk => (hdial.errCh err herr).1 (hH _ hk), (hdial.errCh err herr).2.le (le_setDial hle)⟩
    ret := fun r hr => (hdial.ret r hr).le (le_setDial hle) (hle d hd) }

/-- A context other than a dial's is done. -/
theorem callEvent_ctx {H : Tok → Prop} (h : CallsOk timeout b H)
    (herr : ∀ e, b.err = some e → b'.err = some e)
    (hother : ∀ n e, b.otherErr n = some e → b'.otherErr n = some e) (hplain : b'.plain = b.plain)
    (hdials : b'.dials = b.dials) (hcalls : b'.calls = b.calls) :
    CallEvent timeout b H b' none := by
  have hle : Le b b' := ⟨herr, hother, Nat.le_of_eq hplain.symm,
    fun i d hd => ⟨d, by rw [hdials, hd], .refl d⟩, fun _ _ => by rw [hcalls]⟩
  refine callEvent_quiet rfl (fun hH => ?_)
    ⟨hle, fun _ _ => by rw [hcalls], fun i d hd => ?_⟩ trivial
  · exact h.keep_le hle hdials hcalls (fun _ hn => ⟨hplain ▸ hn, hH _⟩) fun _ => ⟨hH _, hH _⟩
  · exact ⟨d, by rw [hdials, hd], .refl d, fun _ => ⟨rfl, fun h => h⟩, fun _ => rfl⟩

theorem arrive_calls {H : Tok → Prop} {a : Event} {start : Option (Tid × List Op)}
    (h : CallsOk timeout b H) (harr : arrive timeout b a = some (b', start)) :
    CallEvent timeout b H b' start := by
  have hkeep : ∀ {H' : Tok → Prop}, (∀ k, H' k → H k) → CallsOk timeout b H' :=
    fun hH => h.keep (.refl b) hH
  cases a with
  | dial i p hasDone =>
      simp only [arrive] at harr
      split at harr
      · cases harr
      · next hnone =>
          cases harr
          exact callEvent_dial h (Option.not_isSome_iff_eq_none.mp hnone)
  | send n ctx p =>
      simp only [arrive] at harr
      split at harr
      · cases harr
      · cases harr
        refine callEvent_quiet rfl hkeep (.refl _ b) fun o' ho' => ?_
        rw [List.mem_singleton.mp ho']
        trivial
  | queueSend n p =>
      cases harr
      refine callEvent_quiet rfl hkeep (.refl _ b) fun o' ho' => ?_
      simp only [List.mem_cons, List.not_mem_nil, or_false] at ho'
      rcases ho' with rfl | rfl <;> trivial
  | callerDone i e =>
      simp only [arrive] at harr
      split at harr
      · next d hd =>
          split at harr
          · next hdone =>
              cases harr
              exact callEvent_callerDone h hd hdone
          · cases harr
      · cases harr
  | otherDone n e =>
      cases harr
      refine callEvent_ctx h (fun _ he => he) (fun m e' he' => ?_) rfl rfl rfl
      by_cases hm : m = n
      · subst hm
        show Function.update b.otherErr m _ m = _
        rw [Function.update_self, he']
        rfl
      · show Function.update b.otherErr n _ m = _
        rw [Function.update_of_ne hm, he']
  | backendDone e =>
      cases harr
      refine callEvent_ctx h (fun e' he' => ?_) (fun _ _ he => he) rfl rfl rfl
      show some (b.err.getD e) = some e'
      rw [he']
      rfl
  | propagate i =>
      simp only [arrive, endDial] at harr
      split at harr
      · next d e hd he =>
          split at harr
          · next hder =>
              cases harr
              refine callEvent_endDial h hd hder (fun e' heq => ?_) nofun nofun
              cases heq
              exact he
          · cases harr
      · cases harr
  | expire i =>
      simp only [arrive, endDial] at harr
      split at harr
      · next d hd =>
          split at harr
          · next hder =>
              cases harr
              exact callEvent_endDial h hd hder.1 nofun nofun nofun
          · cases harr
      · cases harr
  | cancel i =>
      simp only [arrive, endDial] at harr
      split at harr
      · next d hd =>
          split at harr
          · next hreg =>
              cases harr
              exact callEvent_endDial h hd ((h.dials i d hd).registered hreg.1) nofun
                (fun _ hn => by rw [hn] at hreg; cases hreg.2) nofun
          · cases harr
      · cases harr

theorem calls_reach (h : Reach (backend timeout).step System.unrestricted init s) :
    Pool.Exclusive token s.threads ∧ CallsOk timeout s.shared (Pool.Held token s.threads) ∧
      Pool.All (fun _ => OpAt timeout s.shared) s.threads := by
  refine System.invariant_tokens token (CallsOk timeout)
    (fun b _ => OpAt timeout b) ?_ ?_ ?_ ?_ ?_ h
  · exact ⟨fun _ => List.nodup_nil, fun _ _ _ => nofun⟩
  · have hnone : ∀ k, ¬ Pool.Held token init.threads k := by
      rintro k ⟨t, o, ho, -⟩
      cases ho
    exact ⟨fun i _ => ⟨⟨hnone _, hnone _⟩, rfl⟩, fun n _ => ⟨hnone _, rfl⟩, fun _ => Or.inl rfl,
      fun i d hd => by cases hd⟩
  · exact fun t o ho => absurd ho List.not_mem_nil
  · intro s H t pick o b' ops start _ _ hok hat hH _ hex
    have hstep := exec_calls (t := t) hok hat hH hex
    exact ⟨hstep.fresh, hstep.ok, fun _ o' hother hat' =>
      hat'.frame hstep.frame fun k hk => (hother k hk).2, hstep.pushed, hstep.started⟩
  · intro s H a b' start _ hok _ harr
    have hev := arrive_calls hok harr
    exact ⟨hev.fresh, hev.ok, fun _ o' hat' => hat'.frame hev.frame fun _ _ => List.not_mem_nil,
      hev.started⟩

/-! ## Results -/

/-- In every run: at most one `Send` is in progress on the stream; the lock is
taken exactly while one goroutine has its `unlockSend` still to do; a packet
is handed over at most once, and only with a context that was not done when
the lock was obtained; and a dial that returned no error had its packet handed
over and sent, while an error is the caller's if its context was done at the
last check, and otherwise has one of the reasons listed. -/
theorem dial_send_outcome (h : Reach (backend timeout).step System.unrestricted init s) :
    s.shared.sending.length ≤ 1 ∧
    (s.shared.sendLock = true ↔ ∃ t, ∃ o ∈ s.threads t, o.locked = true) ∧
    (∀ t t', (∃ o ∈ s.threads t, o.locked = true) → (∃ o ∈ s.threads t', o.locked = true) →
      t = t') ∧
    (∀ id, (s.shared.calls id).handed ≠ [] → (s.shared.calls id).locked = [none]) ∧
    ∀ i d, s.shared.dials i = some d →
      ((s.shared.calls (.dial i)).handed = [] ∨
        (s.shared.calls (.dial i)).handed = [d.packet]) ∧
      ∀ r, d.returned = some r →
        (r.err = none → (s.shared.calls (.dial i)).handed = [d.packet] ∧
          (s.shared.calls (.dial i)).ended = [none]) ∧
        (∀ e c, r.err = some e → r.callerErr = some c → e = .ctx c) ∧
        (∀ e, r.err = some e → r.callerErr = none → Reason timeout s.shared i d e) := by
  obtain ⟨hexcl, hlock, hstream⟩ := lock_reach h
  obtain ⟨-, hcalls, -⟩ := calls_reach h
  have hheld : Pool.Held lockToken s.threads () ↔ ∃ t, ∃ o ∈ s.threads t, o.locked = true := by
    refine exists_congr fun t => exists_congr fun o => and_congr_right fun _ => ?_
    show () ∈ lockToken o ↔ _
    rw [lockToken]
    split
    · next hl => simp [hl]
    · next hl => simp [hl]
  have htoken : ∀ {t o}, o ∈ s.threads t → o.locked = true →
      () ∈ (s.threads t).flatMap lockToken := fun {t o} ho hl =>
    List.mem_flatMap.mpr ⟨o, ho, by rw [lockToken, if_pos hl]; exact List.mem_singleton_self _⟩
  refine ⟨?_, hlock.lock.trans hheld, ?_, ?_, ?_⟩
  · by_cases hh : Pool.Held lockToken s.threads ()
    · obtain ⟨t, o, ho, hl⟩ := hheld.mp hh
      rw [hstream t o ho hl]
      cases o <;> simp [Op.stream]
    · rw [hlock.idle hh]
      exact Nat.zero_le _
  · rintro t t' ⟨o, ho, hl⟩ ⟨o', ho', hl'⟩
    refine Classical.byContradiction fun hne => ?_
    exact hexcl.disjoint t t' hne (htoken ho hl) (htoken ho' hl')
  · intro id hid
    exact ((hcalls.logs id).resolve_left hid).2
  · intro i d hd
    have hdial := hcalls.dials i d hd
    exact ⟨hdial.packet, fun r hr =>
      ⟨(hdial.ret r hr).ok, (hdial.ret r hr).caller, (hdial.ret r hr).reason⟩⟩

/-- A dial with a timeout, up to the start of its goroutine. -/
def dialStarted (p : Packet) : List (System.Action Tid Event Pick) :=
  [.arrive (.dial 0 p false), .run (.caller 0) {}, .run (.caller 0) {}, .run (.caller 0) {},
    .run (.caller 0) {}]

/-- The goroutine sends the packet, and the caller gets its answer. -/
def sentRun (p : Packet) : List (System.Action Tid Event Pick) :=
  List.flatten
    [dialStarted p, List.replicate 7 (.run (.sender 0) {}), List.replicate 2 (.run (.caller 0) {})]

theorem dial_send_outcome_sent :
    ∃ s d, Reach (backend 30000000000).step System.unrestricted init s ∧ s.shared.dials 0 = some d ∧
      d.returned = some ⟨none, none⟩ ∧ (s.shared.calls (.dial 0)).handed = [d.packet] ∧
      (s.shared.calls (.dial 0)).ended = [none] := by
  obtain ⟨s, hs, hend⟩ : ∃ s : System.State Backend Tid Op,
      run (backend 30000000000).step init (sentRun (.ofDialRequest ⟨"tcp", "host:1", 1⟩)) = some s ∧
      decide ((s.shared.dials 0).bind (·.returned) = some ⟨none, none⟩) = true :=
    run_any (by decide)
  have hreach : Reach (backend 30000000000).step System.unrestricted init s :=
    reach_of_run hs (by decide)
  obtain ⟨d, hd, hr⟩ := Option.bind_eq_some_iff.mp (of_decide_eq_true hend)
  obtain ⟨-, -, -, -, hdials⟩ := dial_send_outcome hreach
  obtain ⟨hhanded, hended⟩ := ((hdials 0 d hd).2 _ hr).1 rfl
  exact ⟨s, d, hreach, hd, hr, hhanded, hended⟩

/-- The stream has a deadline of its own, set by the agent, and it passes before
the packet is sent. -/
def backendDeadlineRun (p : Packet) : List (System.Action Tid Event Pick) :=
  List.flatten
    [dialStarted p, [.arrive (.backendDone .deadlineExceeded), .arrive (.propagate 0),
      .run (.caller 0) { done := true }, .run (.caller 0) {}, .run (.caller 0) {}]]

/-- `errBackendDialTimeout` is returned though the dial deadline has not
passed. -/
theorem dial_timeout_without_deadline :
    ¬ ∀ (timeout : Int) (s : System.State Backend Tid Op),
      Reach (backend timeout).step System.unrestricted init s → ∀ i d r, s.shared.dials i = some d →
        d.returned = some r → r.err = some .backendDialTimeout → r.callerErr = none →
        d.cause = some .dialDeadline := by
  intro hall
  obtain ⟨s, hs, hend⟩ : ∃ s : System.State Backend Tid Op,
      run (backend 30000000000).step init (backendDeadlineRun (.ofDialRequest ⟨"tcp", "host:1", 1⟩))
        = some s ∧
      decide ((s.shared.dials 0).map (fun d => (d.returned, d.cause)) =
        some (some ⟨some .backendDialTimeout, none⟩, some (.backend .deadlineExceeded))) = true :=
    run_any (by decide)
  have hreach : Reach (backend 30000000000).step System.unrestricted init s :=
    reach_of_run hs (by decide)
  obtain ⟨d, hd, hdr⟩ := Option.map_eq_some_iff.mp (of_decide_eq_true hend)
  obtain ⟨hr, hc⟩ := Prod.mk.inj hdr
  have hdeadline := hall _ s hreach 0 d _ hd hr rfl rfl
  rw [hc] at hdeadline
  cases hdeadline

end Konnectivity.DialSend
