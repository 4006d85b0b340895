import Konnectivity.Proofs.FrontendEnd
import Konnectivity.Proofs.EstablishedCount

/-!
# In-process dials

`dialBackend` enters its dial, waits, and on every way out but one closes the
connection it made. `Close` reads the connection ID once, under the lock of
the connection, so the handler of the `DIAL_RSP` either comes before it, and
`Close` takes the entry away, or after it, and then finds the connection
closed and takes the entry away itself.

`Close` goes by the agent and the connection ID alone, however. It is called
as late as the user likes, and by then the entry under that key may be
another connection's: that one is never closed at its agent. Whenever every
operation on `established` finds its own entry, no dial leaks.
-/

namespace Konnectivity

open Lib

/-! ## `Close` -/

/-- `closeOnce.Do` has yet to finish its function. -/
def Op.finishes : Op → List DialID
  | .closeFinish r => [r]
  | _ => []

/-- The steps of a dial that is being given up or returned. -/
def Op.leaves : Op → Option DialID
  | .closeOnce r | .closeMark r | .closeFinish r | .dialReturn r _ => some r
  | _ => none

/-- The operation neither enters a dial nor is one of these steps. -/
def Op.plain : Op → Bool
  | .pendingAdd _ _ => false
  | o => o.leaves == none

theorem Op.plain.leaves {op : Op} (h : op.plain = true) : op.leaves = none := by
  cases op with
  | pendingAdd r p => rfl
  | _ => simpa [Op.plain] using h

section Close

variable {cfg : ServerConfig} {s : System.State ServerState Tid Op} {s₁ : ServerState} {t : Tid}
  {c : Choice} {op : Op} {ops rest : List Op} {start : Option (Tid × List Op)}

theorem AfterRemove.next_plain (agentID : BackendId → AgentID) (r : DialID) (k : AfterRemove)
    (pd : Option ProxyClientConnection) : (k.next agentID r pd).all Op.plain = true := by
  cases k <;> cases pd <;> simp only [AfterRemove.next]
  case dialRsp.none => split <;> rfl
  case dialRsp.some => split <;> rfl
  case failDial.some => split <;> rfl
  all_goals rfl

/-- A dial is given up or returned by its own goroutine, and closed by those
who called `Close`. -/
theorem exec_leaves {s : ServerState} (hex : exec cfg s t c op = some (s₁, ops, start)) :
    (∀ o ∈ ops, o.plain = true) ∨
      ((∃ f req pkt, op = .selectBackend f req pkt) ∧ ∀ o ∈ ops, o.leaves = none) ∨
      (∃ r, op = .closeOnce r ∧ (s.conns r).closeStarted = false ∧
        ops = [.closeMark r, .closeFinish r]) ∨
      (∃ r, op = .awaitDial r ∧ ops = c.case.next (s.conns r).backend r ∧
        (c.case = .connected → (s.conns r).connected = true)) ∨
      ∃ b pkt r, op = .sendBackend (some b) pkt (.dialBackend r) ∧
        ops = [.pendingRemove r (.failDial b false), .closeOnce r, .dialReturn r false] := by
  suffices h : ops.all Op.plain = true ∨ _ from h.imp_left fun h o ho => List.all_eq_true.mp h o ho
  cases op with
  | pendingRemove r k =>
      simp only [exec] at hex
      cases hex
      exact Or.inl (AfterRemove.next_plain ..)
  | pendingRemoveForBackend b =>
      simp only [exec] at hex
      split at hex <;> cases hex
      exact Or.inl (by simp [Op.plain, Op.leaves])
  | pendingRemoveForStream u =>
      simp only [exec] at hex
      split at hex <;> cases hex
      exact Or.inl (by simp [sendBackendDialClose, Op.plain, Op.leaves])
  | removeEstablished a cid k =>
      simp only [exec] at hex
      split at hex <;> cases hex <;> cases k <;> exact Or.inl rfl
  | removeEstablishedForBackendConn b =>
      simp only [exec] at hex
      split at hex
      · cases hex
        exact Or.inl rfl
      · split at hex <;> cases hex
        rw [List.all_append]
        split <;> exact Or.inl (by simp [Op.plain, Op.leaves])
  | removeEstablishedForStream u =>
      simp only [exec] at hex
      split at hex <;> cases hex
      exact Or.inl (by simp [sendBackendClose, Op.plain, Op.leaves])
  | sendFrontend f pkt k =>
      simp only [exec] at hex
      split at hex
      · cases hex
        exact Or.inl rfl
      · split at hex <;> cases hex
        next ok _ => cases k <;> cases ok <;> exact Or.inl rfl
  | sendBackend b pkt k =>
      simp only [exec] at hex
      split at hex
      · cases hex
        exact Or.inl rfl
      · next b =>
          split at hex <;> cases hex
          cases k with
          | dialBackend r =>
              cases c.ok
              · exact Or.inr (Or.inr (Or.inr (Or.inr ⟨b, pkt, r, rfl, rfl⟩)))
              · exact Or.inl rfl
          | _ => cases c.ok <;> exact Or.inl rfl
  | awaitDial r =>
      simp only [exec] at hex
      split at hex <;> cases hex
      next hready =>
        refine Or.inr (Or.inr (Or.inr (Or.inl ⟨r, rfl, rfl, fun hcase => ?_⟩)))
        rw [hcase] at hready
        exact hready
  | selectBackend f req pkt =>
      refine Or.inr (Or.inl ⟨⟨f, req, pkt, rfl⟩, ?_⟩)
      simp only [exec] at hex
      repeat' split at hex
      all_goals cases hex
      all_goals simp [Op.leaves]
  | closeMark r =>
      simp only [exec] at hex
      cases hex
      split <;> exact Or.inl rfl
  | closeOnce r =>
      simp only [exec] at hex
      split at hex
      · next hopen =>
          cases hex
          exact Or.inr (Or.inr (Or.inl ⟨r, rfl, by simpa using hopen, rfl⟩))
      · split at hex <;> cases hex
        exact Or.inl rfl
  | _ =>
      simp only [exec] at hex
      repeat' split at hex
      all_goals cases hex
      all_goals exact Or.inl rfl

theorem ConnState.send_flags (c : ConnState) (pkt : Packet) :
    (c.send pkt).1.closeStarted = c.closeStarted ∧ (c.send pkt).1.closeDone = c.closeDone ∧
      (c.send pkt).1.localClosed = c.localClosed ∧ (c.send pkt).1.result = c.result := by
  unfold ConnState.send
  repeat' split
  all_goals exact ⟨rfl, rfl, rfl, rfl⟩

/-- What an operation does to the flags of a connection. -/
theorem connAfter_flags (s : ServerState) (c : Choice) (op : Op) (r : DialID) :
    ((op.connAfter s c r).closeStarted = true ↔
        (s.conns r).closeStarted = true ∨ op = .closeOnce r) ∧
      ((op.connAfter s c r).closeDone = true ↔
        (s.conns r).closeDone = true ∨ op = .closeFinish r) ∧
      ((op.connAfter s c r).localClosed = true ↔
        (s.conns r).localClosed = true ∨ op = .closeMark r) ∧
      ∀ ok, (op.connAfter s c r).result = some ok →
        (s.conns r).result = some ok ∨ op = .dialReturn r ok := by
  cases op with
  | sendFrontend f pkt k =>
      cases f with
      | none => simp [Op.connAfter]
      | some f =>
          simp only [Op.connAfter]
          split
          · obtain ⟨h1, h2, h3, h4⟩ := ConnState.send_flags (s.conns r) pkt
            rw [h1, h2, h3, h4]
            simp
          · simp
  | closeWithBackend f b =>
      cases f with
      | none => simp [Op.connAfter]
      | some f =>
          simp only [Op.connAfter]
          split <;> simp
  | awaitDial r' =>
      simp only [Op.connAfter]
      split
      · cases c.case <;> simp [ConnState.take]
      · simp
  | closeOnce r' =>
      simp only [Op.connAfter]
      split
      · next h => simp [h]
      · next h => simp [h]
  | closeMark r' =>
      simp only [Op.connAfter]
      split
      · next h => simp [h]
      · next h => simp [h]
  | closeFinish r' =>
      simp only [Op.connAfter]
      split
      · next h => simp [h]
      · next h => simp [h]
  | dialReturn r' ok =>
      simp only [Op.connAfter]
      split
      · next h =>
          subst h
          refine ⟨by simp, by simp, by simp, fun ok' hok => Or.inr ?_⟩
          cases hok
          rfl
      · next h => simp [h]
  | _ => simp [Op.connAfter]

/-- How far the calls of `Close` have come. -/
structure CloseInv (s : System.State ServerState Tid Op) : Prop where
  exclusive : Pool.Exclusive Op.finishes s.threads
  running : ∀ r, Pool.Held Op.finishes s.threads r →
    (s.shared.conns r).closeStarted = true ∧ (s.shared.conns r).closeDone = false
  started : ∀ r, (s.shared.conns r).closeStarted = true →
    (s.shared.conns r).localClosed = true ∨ Pool.Has (fun _ o => o = .closeMark r) s.threads
  done : ∀ r, (s.shared.conns r).closeDone = true → (s.shared.conns r).closeStarted = true
  -- The dialer comes to its return through `Close`.
  returning : ∀ r, .dialReturn r false ∈ s.threads (.dialer r) →
    .closeOnce r ∈ s.threads (.dialer r) ∨ .closeFinish r ∈ s.threads (.dialer r) ∨
      (s.shared.conns r).closeDone = true
  result : ∀ r, (s.shared.conns r).result = some false → (s.shared.conns r).closeDone = true

theorem mem_finishes {o : Op} {r : DialID} : r ∈ o.finishes ↔ o = .closeFinish r := by
  cases o <;> simp [Op.finishes, eq_comm]

theorem held_finishes {pool : Tid → List Op} {r : DialID} :
    Pool.Held Op.finishes pool r ↔ ∃ t, .closeFinish r ∈ pool t := by
  constructor
  · rintro ⟨t, o, ho, hr⟩
    exact ⟨t, mem_finishes.mp hr ▸ ho⟩
  · rintro ⟨t, ho⟩
    exact ⟨t, _, ho, mem_finishes.mpr rfl⟩

/-- The operations that come in finish a call of `Close` that has just begun. -/
theorem exec_finishes {s : ServerState} (hex : exec cfg s t c op = some (s₁, ops, start)) :
    ops.flatMap Op.finishes = [] ∨
      ∃ r, op = .closeOnce r ∧ (s.conns r).closeStarted = false ∧
        ops = [.closeMark r, .closeFinish r] := by
  have hstays : ∀ {ops : List Op}, (∀ o ∈ ops, ∀ r, o ≠ .closeFinish r) →
      ops.flatMap Op.finishes = [] := by
    intro ops h
    refine List.flatMap_eq_nil_iff.mpr fun o ho => List.eq_nil_iff_forall_not_mem.mpr fun r hr => ?_
    exact h o ho r (mem_finishes.mp hr)
  rcases exec_leaves hex with h | ⟨-, h⟩ | h | ⟨r, -, rfl, -⟩ | ⟨b, pkt, r, -, rfl⟩
  · refine Or.inl (hstays fun o ho r heq => ?_)
    have := h o ho
    rw [heq] at this
    cases this
  · refine Or.inl (hstays fun o ho r heq => ?_)
    have := h o ho
    rw [heq] at this
    cases this
  · exact Or.inr h
  · exact Or.inl (by cases c.case <;> rfl)
  · exact Or.inl rfl

/-- A `Close` that is called starts its work, or finds it done. -/
theorem closeOnce_cases {s : ServerState} {r : DialID}
    (hex : exec cfg s t c (.closeOnce r) = some (s₁, ops, start)) :
    (.closeFinish r ∈ ops ∧ .closeMark r ∈ ops) ∨
      ((s.conns r).closeStarted = true ∧ (s.conns r).closeDone = true) := by
  simp only [Konnectivity.exec] at hex
  split at hex
  · cases hex
    exact Or.inl ⟨by simp, by simp⟩
  · next hs =>
      split at hex <;> cases hex
      next hd => exact Or.inr ⟨by simpa using hs, hd⟩

/-- A dial that fails has called `Close`. -/
theorem CloseInv.returning_exec (h : CloseInv s) (ht : s.threads t = op :: rest)
    (hex : exec cfg s.shared t c op = some (s₁, ops, start)) {r : DialID}
    (hr : .dialReturn r false ∈ Function.update s.threads t (ops ++ rest) (.dialer r)) :
    .closeOnce r ∈ Function.update s.threads t (ops ++ rest) (.dialer r) ∨
      .closeFinish r ∈ Function.update s.threads t (ops ++ rest) (.dialer r) ∨
      (s₁.conns r).closeDone = true := by
  have hconn := exec_conns hex
  have hflags := connAfter_flags s.shared c op
  have hdone : (s.shared.conns r).closeDone = true → (s₁.conns r).closeDone = true := by
    intro hr
    rw [hconn r]
    exact (hflags r).2.1.mpr (Or.inl hr)
  have hin : ∀ {o}, Tid.dialer r = t → o ∈ ops →
      o ∈ Function.update s.threads t (ops ++ rest) (.dialer r) := by
    rintro o rfl ho
    rw [Function.update_self]
    exact List.mem_append_left _ ho
  rcases Pool.mem_of_push ht hr with ⟨heq, hnew⟩ | hold
  · refine Or.inl (hin heq ?_)
    rcases exec_leaves hex with hplain | ⟨-, hstays⟩ | ⟨r', -, -, rfl⟩ | ⟨r', -, rfl, -⟩ |
      ⟨b, pkt, r', -, rfl⟩
    · cases hplain _ hnew
    · cases hstays _ hnew
    · simp at hnew
    · cases hcase : c.case <;> rw [hcase] at hnew <;>
        simp only [DialCase.next, List.mem_cons, List.not_mem_nil, or_false] at hnew ⊢
      · cases hnew
      all_goals simp_all
    · simp only [List.mem_cons, List.not_mem_nil, or_false] at hnew ⊢
      simp_all
  · rcases h.returning r hold with honce | hfinish | hd
    · rcases Pool.mem_push honce ht with ⟨heq, hcall⟩ | hstay
      · subst hcall
        rcases closeOnce_cases hex with ⟨hfinish, -⟩ | ⟨-, hd⟩
        · exact Or.inr (Or.inl (hin heq hfinish))
        · exact Or.inr (Or.inr (hdone hd))
      · exact Or.inl hstay
    · rcases Pool.mem_push hfinish ht with ⟨-, hcall⟩ | hstay
      · refine Or.inr (Or.inr ?_)
        rw [hconn r]
        exact (hflags r).2.1.mpr (Or.inr hcall.symm)
      · exact Or.inr (Or.inl hstay)
    · exact Or.inr (Or.inr (hdone hd))

theorem CloseInv.exec (h : CloseInv s) (hop : op.Origin cfg s.shared.log t)
    (hthen : ∀ t, Pool.Each Op.Then (s.threads t)) (ht : s.threads t = op :: rest)
    (hex : exec cfg s.shared t c op = some (s₁, ops, start)) :
    CloseInv ⟨s₁, Function.update s.threads t (ops ++ rest)⟩ := by
  have hconn := exec_conns hex
  have hflags := connAfter_flags s.shared c op
  have hfin := exec_finishes hex
  have hmem : op ∈ s.threads t := by
    rw [ht]
    exact List.mem_cons_self
  -- A call that begins has the flags of one that has not.
  have hfresh : ∀ {r}, (s.shared.conns r).closeStarted = false →
      (s.shared.conns r).closeDone = false ∧ ¬ Pool.Held Op.finishes s.threads r := by
    intro r hr
    refine ⟨Bool.eq_false_iff.mpr fun hd => ?_, fun hheld => ?_⟩
    · rw [h.done r hd] at hr
      cases hr
    · rw [(h.running r hheld).1] at hr
      cases hr
  have hdone : ∀ {r}, (s.shared.conns r).closeDone = true → (s₁.conns r).closeDone = true := by
    intro r hr
    rw [hconn r]
    exact (hflags r).2.1.mpr (Or.inl hr)
  refine ⟨?_, fun r hheld => ?_, fun r hr => ?_, fun r hr => ?_, fun r hr => ?_, fun r hr => ?_⟩
  · rcases hfin with hnone | ⟨r, rfl, hr, rfl⟩
    · exact h.exclusive.push ht (by rw [hnone]; exact List.nodup_nil) (by rw [hnone]; simp)
    · refine h.exclusive.push ht (by simp [Op.finishes]) fun k hk => Or.inr ?_
      obtain rfl : k = r := by simpa [Op.finishes] using hk
      exact (hfresh hr).2
  · dsimp only
    rw [hconn r]
    rcases Pool.Held.of_push ht hheld with hnew | hold
    · rcases hfin with hnone | ⟨r', rfl, hr, rfl⟩
      · rw [hnone] at hnew
        cases hnew
      · obtain rfl : r = r' := by simpa [Op.finishes] using hnew
        refine ⟨(hflags r).1.mpr (Or.inr rfl), Bool.eq_false_iff.mpr fun hd => ?_⟩
        rcases (hflags r).2.1.mp hd with hd | hd
        · rw [(hfresh hr).1] at hd
          cases hd
        · cases hd
    · obtain ⟨hs, hd⟩ := h.running r hold
      refine ⟨(hflags r).1.mpr (Or.inl hs), Bool.eq_false_iff.mpr fun hd' => ?_⟩
      rcases (hflags r).2.1.mp hd' with hd' | rfl
      · rw [hd] at hd'
        cases hd'
      · refine h.exclusive.released ht (mem_finishes.mpr rfl) ?_ hheld
        rcases hfin with hnone | ⟨r', heq, -⟩
        · rw [hnone]
          exact List.not_mem_nil
        · cases heq
  · dsimp only at hr ⊢
    rw [hconn r] at hr ⊢
    have hold : (s.shared.conns r).closeStarted = true →
        (op.connAfter s.shared c r).localClosed = true ∨
          Pool.Has (fun _ o => o = .closeMark r) (Function.update s.threads t (ops ++ rest)) := by
      intro hs
      rcases h.started r hs with hl | hhas
      · exact Or.inl ((hflags r).2.2.1.mpr (Or.inl hl))
      · exact (hhas.push ht).imp_left fun heq => (hflags r).2.2.1.mpr (Or.inr heq)
    rcases (hflags r).1.mp hr with hs | heq
    · exact hold hs
    · subst heq
      rcases closeOnce_cases hex with ⟨-, hmark⟩ | ⟨hs, -⟩
      · exact Or.inr (Pool.Has.pushed hmark rfl)
      · exact hold hs
  · dsimp only at hr ⊢
    rw [hconn r] at hr ⊢
    refine (hflags r).1.mpr (Or.inl ?_)
    rcases (hflags r).2.1.mp hr with hd | rfl
    · exact h.done r hd
    · exact (h.running r (held_finishes.mpr ⟨t, hmem⟩)).1
  · exact h.returning_exec ht hex hr
  · dsimp only at hr ⊢
    rw [hconn r] at hr
    refine hdone ?_
    rcases (hflags r).2.2.2 false hr with hres | rfl
    · exact h.result r hres
    · obtain ⟨rfl, -⟩ := hop
      have hlast := hthen (.dialer r)
      rw [ht] at hlast
      obtain rfl : rest = [] := hlast.1
      have hret := h.returning r hmem
      rw [ht] at hret
      simpa using hret

/-- A connection is made by a dial and not touched by any other arrival. -/
theorem arrive_conns {s : ServerState} {a : ServerAction}
    (harr : arrive cfg s a = some (s₁, start)) (r : DialID) :
    s₁.conns r = s.conns r ∨
      ∃ u b n addr, a = .dial u r b n addr ∧ s₁.conns r = { backend := b } := by
  cases a with
  | dial u r' b n addr =>
      simp only [arrive] at harr
      split at harr <;> cases harr
      by_cases hr : r = r'
      · subst hr
        exact Or.inr ⟨u, b, n, addr, rfl, by simp⟩
      · exact Or.inl (by simp [Function.update_of_ne hr])
  | _ =>
      simp only [arrive] at harr
      repeat' split at harr
      all_goals cases harr
      all_goals exact Or.inl rfl

theorem serveRecvBackend_stays {b : BackendId} {pkt : Packet}
    (h : serveRecvBackend cfg b pkt = some ops) : ∀ o ∈ ops, o.leaves = none := by
  rcases serveRecvBackend_cases h with rfl | ⟨resp, -, -, rfl⟩ | ⟨r, -, -, rfl⟩ |
    ⟨cid, -, -, rfl⟩ | ⟨cid, -, -, rfl⟩
  all_goals simp [Op.leaves]

theorem serveRecvFrontend_stays {f : Frontend} {st st' : StreamState} {pkt : Packet}
    (h : serveRecvFrontend f st pkt = some (st', ops)) : ∀ o ∈ ops, o.leaves = none := by
  suffices hall : ops.all (fun o => o.leaves == none) = true by
    intro o ho
    simpa using List.all_eq_true.mp hall o ho
  unfold serveRecvFrontend at h
  split at h
  all_goals first
    | cases h; rfl
    | skip
  all_goals obtain ⟨req, -, heq⟩ := Option.map_eq_some_iff.mp h
  all_goals repeat' split at heq
  all_goals cases heq
  all_goals rfl

/-- `Close` is called on a connection that was returned or is watched. -/
theorem arrive_leaves {s : ServerState} {a : ServerAction}
    (harr : arrive cfg s a = some (s₁, some (t, ops))) :
    (∀ o ∈ ops, o.leaves = none) ∨
      ∃ r, (t = .closer r ∨ t = .watcher r) ∧ ops = [.closeOnce r] ∧
        ((s.conns r).result = some true ∨ ∃ b, (s.conns r).watched = some b) := by
  cases a with
  | deliver b pkt =>
      simp only [arrive] at harr
      split at harr
      · split at harr <;> cases harr
        · exact Or.inl fun o ho => absurd ho List.not_mem_nil
        · next hops => exact Or.inl (serveRecvBackend_stays hops)
      · cases harr
  | receive u pkt =>
      simp only [arrive] at harr
      split at harr
      · split at harr
        · cases harr
        · split at harr <;> cases harr
          · exact Or.inl fun o ho => absurd ho List.not_mem_nil
          · next hops => exact Or.inl (serveRecvFrontend_stays hops)
      · cases harr
  | userClose r =>
      simp only [arrive] at harr
      split at harr <;> cases harr
      next hres => exact Or.inr ⟨r, Or.inl rfl, rfl, Or.inl hres⟩
  | watchClose r =>
      simp only [arrive] at harr
      split at harr
      · cases harr
      · next b hw =>
          split at harr <;> cases harr
          exact Or.inr ⟨r, Or.inr rfl, rfl, Or.inr ⟨b, hw⟩⟩
  | _ =>
      simp only [arrive] at harr
      repeat' split at harr
      all_goals cases harr
      all_goals exact Or.inl (by simp [Op.leaves])

theorem ConnDialed.hasDial {log : List Event} {r : DialID} (h : ConnDialed log r) :
    ∃ f, HasDial log f r := by
  obtain ⟨f, b, -, hd⟩ := h
  exact ⟨f, Or.inr ⟨b, hd⟩⟩

theorem Op.Origin.leaves_dialed {log : List Event} (h : op.Origin cfg log t) {r : DialID}
    (hr : op.leaves = some r) : ConnDialed log r := by
  cases op with
  | closeOnce _ | closeMark _ | closeFinish _ | dialReturn _ _ =>
      cases hr
      exact h.2
  | _ => cases hr

theorem CloseInv.arrive (h : CloseInv s) {a : ServerAction} (hdistinct : DistinctDials s.shared a)
    (hP : Pool.All (fun t o => o.Origin cfg s.shared.log t) s.threads)
    (harr : arrive cfg s.shared a = some (s₁, start)) {threads : Tid → List Op}
    (hthreads : Pool.Arrived s.threads start threads) : CloseInv ⟨s₁, threads⟩ := by
  have hmem : ∀ {x o r}, o ∈ threads x → o.leaves = some r →
      o ∈ s.threads x ∨ (o = .closeOnce r ∧ x ≠ .dialer r) := by
    intro x o r ho hr
    rcases hthreads.of_mem ho with ho | ⟨ops, rfl, ho⟩
    · exact Or.inl ho
    · rcases arrive_leaves harr with hstays | ⟨r', hx, rfl, -⟩
      · rw [hstays o ho] at hr
        cases hr
      · rw [List.mem_singleton.mp ho] at hr ⊢
        cases hr
        exact Or.inr ⟨rfl, by rcases hx with rfl | rfl <;> simp⟩
  -- A dial that begins has no operation in any goroutine yet.
  have hfresh : ∀ {r}, s₁.conns r = s.shared.conns r ∨ ((s₁.conns r).closeStarted = false ∧
      (s₁.conns r).closeDone = false ∧ (s₁.conns r).result = none ∧
      ∀ x, ∀ o ∈ s.threads x, o.leaves ≠ some r) := by
    intro r
    rcases arrive_conns harr r with hsame | ⟨u, b, n, addr, rfl, hnew⟩
    · exact Or.inl hsame
    · refine Or.inr ⟨by rw [hnew], by rw [hnew], by rw [hnew], fun x o ho hr => ?_⟩
      obtain ⟨f, hf⟩ := ((hP x o ho).leaves_dialed hr).hasDial
      exact hdistinct r rfl f hf
  have hheld : ∀ {r}, Pool.Held Op.finishes threads r → Pool.Held Op.finishes s.threads r := by
    intro r hr
    obtain ⟨x, hx⟩ := held_finishes.mp hr
    rcases hmem hx rfl with hx | ⟨heq, -⟩
    · exact held_finishes.mpr ⟨x, hx⟩
    · cases heq
  refine ⟨?_, fun r hr => ?_, fun r hr => ?_, fun r hr => ?_, fun r hr => ?_, fun r hr => ?_⟩
  · cases start with
    | none => exact (show threads = s.threads from hthreads) ▸ h.exclusive
    | some st =>
        obtain ⟨hidle, rfl⟩ := hthreads
        have hnone : st.2.flatMap Op.finishes = [] := by
          refine List.flatMap_eq_nil_iff.mpr fun o ho => List.eq_nil_iff_forall_not_mem.mpr ?_
          intro r hr
          obtain rfl := mem_finishes.mp hr
          rcases arrive_leaves harr with hstays | ⟨r', -, hops, -⟩
          · cases hstays _ ho
          · rw [hops] at ho
            simp at ho
        exact h.exclusive.start hidle (by rw [hnone]; exact List.nodup_nil) (by rw [hnone]; simp)
  · rcases @hfresh r with hsame | ⟨-, -, -, hno⟩
    · dsimp only
      rw [hsame]
      exact h.running r (hheld hr)
    · obtain ⟨x, hx⟩ := held_finishes.mp (hheld hr)
      exact absurd rfl (hno x _ hx)
  · dsimp only at hr ⊢
    rcases @hfresh r with hsame | ⟨hs, -⟩
    · rw [hsame] at hr ⊢
      refine (h.started r hr).imp_right ?_
      rintro ⟨x, o, ho, heq⟩
      exact ⟨x, o, hthreads.mem ho, heq⟩
    · rw [hs] at hr
      cases hr
  · dsimp only at hr ⊢
    rcases @hfresh r with hsame | ⟨-, hd, -⟩
    · rw [hsame] at hr ⊢
      exact h.done r hr
    · rw [hd] at hr
      cases hr
  · dsimp only at hr ⊢
    have hold := (hmem hr rfl).resolve_right fun hx => by cases hx.1
    rcases @hfresh r with hsame | ⟨-, -, -, hno⟩
    · rw [hsame]
      rcases h.returning r hold with ho | ho | hd
      · exact Or.inl (hthreads.mem ho)
      · exact Or.inr (Or.inl (hthreads.mem ho))
      · exact Or.inr (Or.inr hd)
    · exact absurd rfl (hno _ _ hold)
  · dsimp only at hr ⊢
    rcases @hfresh r with hsame | ⟨-, -, hnone, -⟩
    · rw [hsame] at hr ⊢
      exact h.result r hr
    · rw [hnone] at hr
      cases hr

end Close

theorem server_close {cfg : ServerConfig} {okExec : ServerState → Tid → Choice → Op → Prop}
    {okArrive : ServerState → ServerAction → Prop} {s : System.State ServerState Tid Op}
    (hdistinct : ∀ s a, okArrive s a → DistinctDials s a)
    (h : Reach (server cfg).step (System.Allowed okExec okArrive) newServer s) : CloseInv s := by
  refine server_invariant CloseInv ?_ ?_ ?_ ?_ h
  · refine ⟨⟨fun t => List.nodup_nil, fun t t' _ => List.disjoint_nil_left _⟩, fun r hr => ?_,
      fun r hr => ?_, fun r hr => ?_, fun r hr => ?_, fun r hr => ?_⟩
    · obtain ⟨t, ht⟩ := held_finishes.mp hr
      cases ht
    all_goals cases hr
  · intro s t c op rest s₁ ops start hr hinv _ ht _ hex
    have hop := (server_origin hr).2 t op (by rw [ht]; exact List.mem_cons_self)
    exact hinv.exec hop (server_then hr) ht hex
  · intro s r b f hinv
    refine ⟨hinv.exclusive.spawn rfl, fun r' hr => hinv.running r' (hr.of_spawn rfl),
      fun r' hr => ?_, hinv.done, fun r' hr => ?_, hinv.result⟩
    · refine (hinv.started r' hr).imp_right ?_
      rintro ⟨x, o, ho, heq⟩
      exact ⟨x, o, mem_timer_of_mem ho, heq⟩
    · have hother : Tid.dialer r' ≠ .timer r := by simp
      simp only [Function.update_of_ne hother] at hr ⊢
      exact hinv.returning r' hr
  · intro s a s₁ start threads hr hinv _ hok harr hthreads
    exact hinv.arrive (hdistinct _ _ hok) (server_origin hr).2 harr hthreads

/-! ## The dial and its connection -/

/-- The packets that are received come from streams that `proxy` serves. -/
theorem server_fromFrontend {cfg : ServerConfig}
    {okExec : ServerState → Tid → Choice → Op → Prop} {okArrive : ServerState → ServerAction → Prop}
    {s : System.State ServerState Tid Op}
    (h : Reach (server cfg).step (System.Allowed okExec okArrive) newServer s) :
    ∀ f pkt, .fromFrontend f pkt ∈ s.shared.log → f.stream = .proxy := by
  refine server_invariant
    (fun s => ∀ f pkt, .fromFrontend f pkt ∈ s.shared.log → f.stream = .proxy) ?_ ?_ ?_ ?_ h
  · exact fun f pkt hp => by cases hp
  · intro s t c op rest s₁ ops start hr hinv _ ht _ hex f pkt hp
    have hop := (server_origin hr).2 t op (by rw [ht]; exact List.mem_cons_self)
    refine hinv f pkt ((exec_event hop hex hp).resolve_right fun hadd => ?_)
    cases op <;> simp [Op.Adds] at hadd
  · exact fun hinv => hinv
  · intro s a s₁ start threads _ hinv _ _ harr _ f pkt hp
    rcases arrive_fromFrontend harr hp with hp | ⟨u, -, rfl⟩
    · exact hinv f pkt hp
    · rfl

section Dial

variable {cfg : ServerConfig} {s : System.State ServerState Tid Op} {s₁ : ServerState} {t : Tid}
  {c : Choice} {op : Op} {ops rest : List Op} {start : Option (Tid × List Op)}

/-- The connection of an in-process dial is the frontend of no other dial. -/
theorem hasDial_conn {s : ServerState} (hG : SharedOrigin cfg s)
    (hproxy : ∀ f pkt, .fromFrontend f pkt ∈ s.log → f.stream = .proxy) {f : Frontend}
    {r r' : DialID} (hf : f.stream = .serverConn r) (h : HasDial s.log f r') : r' = r := by
  rcases h with ⟨pkt, hp, -⟩ | ⟨b, hd⟩
  · rw [hproxy f pkt hp] at hf
    cases hf
  · exact (hG.ownConn f b r' hd r hf).symm

/-- What `serverConn.Send` does to the connection. -/
theorem ConnState.send_conn (x : ConnState) (pkt : Packet) :
    (x.closed = true → (x.send pkt).1.closed = true) ∧
      ((x.send pkt).1.connID = x.connID ∧ (x.send pkt).1.connected = x.connected ∨
        ∃ resp, pkt.type = .dialRsp ∧ pkt.payload = some (.dialResponse resp) ∧
          x.closed = false ∧ (x.send pkt).1.connID = resp.connectID ∧ resp.error = "" ∧
          (x.send pkt).1.connected = true) := by
  unfold ConnState.send
  split
  · exact ⟨fun _ => rfl, Or.inl ⟨rfl, rfl⟩⟩
  · exact ⟨id, Or.inl ⟨rfl, rfl⟩⟩
  · exact ⟨id, Or.inl ⟨rfl, rfl⟩⟩
  · next htype =>
      split
      · exact ⟨id, Or.inl ⟨rfl, rfl⟩⟩
      · next resp hresp =>
          rw [Packet.getDialResponse_iff] at hresp
          split
          · exact ⟨id, Or.inl ⟨rfl, rfl⟩⟩
          · next herr =>
              split
              · exact ⟨id, Or.inl ⟨rfl, rfl⟩⟩
              · next hopen =>
                  exact ⟨id, Or.inr ⟨resp, htype, hresp, by simpa using hopen, rfl,
                    by simpa using herr, rfl⟩⟩
  · exact ⟨id, Or.inl ⟨rfl, rfl⟩⟩

theorem connAfter_conn (s : ServerState) (c : Choice) (op : Op) (r : DialID) :
    ((s.conns r).closed = true ∨ op = .closeMark r → (op.connAfter s c r).closed = true) ∧
      ((op.connAfter s c r).watched = (s.conns r).watched ∨
        ∃ f b, op = .closeWithBackend (some f) b ∧ f.stream = .serverConn r) ∧
      ((op.connAfter s c r).connID = (s.conns r).connID ∧
          (op.connAfter s c r).connected = (s.conns r).connected ∨
        ∃ f pkt k resp, op = .sendFrontend (some f) pkt k ∧ f.stream = .serverConn r ∧
          pkt.type = .dialRsp ∧ pkt.payload = some (.dialResponse resp) ∧
          (s.conns r).closed = false ∧ (op.connAfter s c r).connID = resp.connectID ∧
          resp.error = "" ∧ (op.connAfter s c r).connected = true) := by
  cases op with
  | sendFrontend f pkt k =>
      cases f with
      | none => simp [Op.connAfter]
      | some f =>
          simp only [Op.connAfter]
          split
          · next hf =>
              obtain ⟨h1, h2⟩ := (s.conns r).send_conn pkt
              refine ⟨fun h => h1 (h.resolve_right (by simp)),
                Or.inl ((s.conns r).send_frame pkt).2.1, h2.imp_right ?_⟩
              rintro ⟨resp, ht, hp, hopen, hid, herr⟩
              exact ⟨f, pkt, k, resp, rfl, hf, ht, hp, hopen, hid, herr⟩
          · exact ⟨fun h => h.resolve_right (by simp), Or.inl rfl, Or.inl ⟨rfl, rfl⟩⟩
  | closeWithBackend f b =>
      cases f with
      | none => simp [Op.connAfter]
      | some f =>
          simp only [Op.connAfter]
          split
          · next hf =>
              exact ⟨fun h => h.resolve_right (by simp), Or.inr ⟨f, b, rfl, hf⟩, Or.inl ⟨rfl, rfl⟩⟩
          · exact ⟨fun h => h.resolve_right (by simp), Or.inl rfl, Or.inl ⟨rfl, rfl⟩⟩
  | awaitDial r' =>
      simp only [Op.connAfter]
      split
      · cases c.case <;> exact ⟨fun h => h.resolve_right (by simp), Or.inl rfl, Or.inl ⟨rfl, rfl⟩⟩
      · exact ⟨fun h => h.resolve_right (by simp), Or.inl rfl, Or.inl ⟨rfl, rfl⟩⟩
  | closeMark r' =>
      simp only [Op.connAfter]
      split
      · exact ⟨fun _ => rfl, Or.inl rfl, Or.inl ⟨rfl, rfl⟩⟩
      · next hne =>
          refine ⟨fun h => h.resolve_right ?_, Or.inl rfl, Or.inl ⟨rfl, rfl⟩⟩
          exact fun heq => hne (Op.closeMark.inj heq)
  | closeOnce _ | closeFinish _ | dialReturn _ _ =>
      simp only [Op.connAfter]
      split <;> exact ⟨fun h => h.resolve_right (by simp), Or.inl rfl, Or.inl ⟨rfl, rfl⟩⟩
  | _ => exact ⟨fun h => h.resolve_right (by simp), Or.inl rfl, Or.inl ⟨rfl, rfl⟩⟩

theorem connAfter_backend (s : ServerState) (c : Choice) (op : Op) (r : DialID) :
    (op.connAfter s c r).backend = (s.conns r).backend := by
  cases op with
  | sendFrontend f pkt k =>
      cases f with
      | none => rfl
      | some f =>
          simp only [Op.connAfter]
          split
          · exact ((s.conns r).send_frame pkt).1
          · rfl
  | closeWithBackend f b =>
      cases f with
      | none => rfl
      | some f =>
          simp only [Op.connAfter]
          split <;> rfl
  | awaitDial r' =>
      simp only [Op.connAfter]
      split
      · cases c.case <;> rfl
      · rfl
  | closeOnce _ | closeMark _ | closeFinish _ | dialReturn _ _ =>
      simp only [Op.connAfter]
      split <;> rfl
  | _ => rfl

theorem answersDial_dialRsp {pkt : Packet} {resp : DialResponse} (htype : pkt.type = .dialRsp)
    (hpay : pkt.payload = some (.dialResponse resp)) : pkt.answersDial = some resp.random := by
  simp [Packet.answersDial, htype, hpay]

theorem answers_le_append (es log : List Event) (r : DialID) :
    answers log r ≤ answers (es ++ log) r := by
  unfold answers
  rw [List.filterMap_append, List.count_append]
  exact Nat.le_add_left _ _

/-- How far an in-process dial has come. -/
structure DialerInv (s : System.State ServerState Tid Op) : Prop where
  callers : ∀ r t, t = .closer r ∨ t = .watcher r → s.threads t ≠ [] → ConnDialed s.shared.log r
  -- A dial that has yet to become pending has neither been answered nor closed.
  fresh : ∀ r p, .pendingAdd r p ∈ s.threads (.dialer r) →
    (s.shared.conns r).localClosed = false ∧ (s.shared.conns r).watched = none ∧
      (s.shared.conns r).result = none ∧ s.threads (.closer r) = [] ∧ s.threads (.watcher r) = []
  closed : ∀ r, (s.shared.conns r).localClosed = true →
    ConnDialed s.shared.log r ∧ (s.shared.conns r).closed = true
  pending : ∀ r, (s.shared.conns r).localClosed = true →
    s.shared.pendingDial.pendingDial.lookup r = none ∨
      Pool.Has (fun _ o => o = .pendingRemove r .closeConn) s.threads
  connID : ∀ r, (s.shared.conns r).connID ≠ 0 → 0 < answers s.shared.log r

/-- Only the handler of a frontend enters a dial after something else. -/
theorem exec_pendingAdd {s : ServerState} (hop : op.Origin cfg s.log t)
    (hex : exec cfg s t c op = some (s₁, ops, start)) {r : DialID} {p : ProxyClientConnection}
    (h : .pendingAdd r p ∈ ops) : ∃ f : Frontend, t = .proxy f.streamUID := by
  rcases exec_leaves hex with hplain | ⟨⟨f, req, pkt, rfl⟩, -⟩ | ⟨r', -, -, rfl⟩ | ⟨r', -, rfl, -⟩ |
    ⟨b, pkt, r', -, rfl⟩
  · cases hplain _ h
  · refine ⟨f, ?_⟩
    rw [hop.1, Frontend.tid, hop.2.1]
  · simp at h
  · cases hcase : c.case <;> rw [hcase] at h <;> simp [DialCase.next] at h
  · simp at h

/-- The operation that hands the connection over carries the token of the dial. -/
theorem closeWithBackend_token (hG : SharedOrigin cfg s.shared)
    (hproxy : ∀ f pkt, .fromFrontend f pkt ∈ s.shared.log → f.stream = .proxy)
    (hP : Pool.All (fun t o => o.Origin cfg s.shared.log t) s.threads)
    (hthen : ∀ t, Pool.Each Op.Then (s.threads t)) {f : Frontend} {b : BackendId} {r : DialID}
    (ht : s.threads t = .closeWithBackend (some f) b :: rest) (hf : f.stream = .serverConn r) :
    t = .dispatcher b ∧ r ∈ (s.threads t).flatMap Op.tokens := by
  have hown := hthen t
  rw [ht] at hown
  obtain ⟨pkt, resp, rfl⟩ := hown.1
  have hmem : .sendFrontend (some f) pkt (.dialRsp b resp) ∈ s.threads t := by
    rw [ht]
    simp
  obtain ⟨⟨hb, -, htype, hpay, -⟩, f', hf', hdial⟩ := hP t _ hmem
  cases hf'
  have hans := answersDial_dialRsp htype hpay
  obtain rfl : resp.random = r := hasDial_conn hG hproxy hf (hdial _ hans)
  exact ⟨hb, List.mem_flatMap.mpr ⟨_, hmem, by simp [Op.tokens, hans]⟩⟩

/-- What is known of every run with distinct dial IDs. -/
structure Grounds (cfg : ServerConfig) (s : System.State ServerState Tid Op) : Prop where
  origin : SharedOrigin cfg s.shared
  ops : Pool.All (fun t o => o.Origin cfg s.shared.log t) s.threads
  sequence : ∀ t, Pool.Each Op.Then (s.threads t)
  custody : CustodyInv s
  close : CloseInv s
  stream : StreamInv s
  proxy : ∀ f pkt, .fromFrontend f pkt ∈ s.shared.log → f.stream = .proxy

theorem server_grounds {okExec : ServerState → Tid → Choice → Op → Prop}
    {okArrive : ServerState → ServerAction → Prop}
    (hdistinct : ∀ s a, okArrive s a → DistinctDials s a)
    (h : Reach (server cfg).step (System.Allowed okExec okArrive) newServer s) : Grounds cfg s :=
  ⟨(server_origin h).1, (server_origin h).2, server_then h, server_custody hdistinct h,
    server_close hdistinct h, server_stream hdistinct h, server_fromFrontend h⟩

/-- The only frontend of an in-process dial is its connection. -/
theorem Grounds.conn (h : Grounds cfg s) {r : DialID} (hr : ConnDialed s.shared.log r)
    {f : Frontend} (hf : HasDial s.shared.log f r) : f.stream = .serverConn r := by
  obtain ⟨f', b, hf', hd⟩ := hr
  rw [h.custody.frontend f f' r hf (Or.inr ⟨b, hd⟩)]
  exact hf'

/-- What an operation leaves of the facts about a dial that begins. -/
theorem DialerInv.fresh_exec (h : DialerInv s) (hg : Grounds cfg s) (ht : s.threads t = op :: rest)
    (hex : exec cfg s.shared t c op = some (s₁, ops, start)) {r : DialID}
    {p : ProxyClientConnection}
    (hadd : .pendingAdd r p ∈ Function.update s.threads t (ops ++ rest) (.dialer r)) :
    (s₁.conns r).localClosed = false ∧ (s₁.conns r).watched = none ∧ (s₁.conns r).result = none ∧
      Function.update s.threads t (ops ++ rest) (.closer r) = [] ∧
      Function.update s.threads t (ops ++ rest) (.watcher r) = [] := by
  have hop := hg.ops t op (by rw [ht]; exact List.mem_cons_self)
  have hown := hg.sequence t
  rw [ht] at hown
  have hold : .pendingAdd r p ∈ s.threads (.dialer r) := by
    rcases Pool.mem_of_push ht hadd with ⟨heq, hnew⟩ | hold
    · obtain ⟨f, hf⟩ := exec_pendingAdd hop hex hnew
      rw [hf] at heq
      cases heq
    · exact hold
  obtain ⟨hl, hw, hres, hcl, hwa⟩ := h.fresh r p hold
  have hidle : ∀ {x}, s.threads x = [] → x ≠ t := by
    rintro x hx rfl
    rw [ht] at hx
    cases hx
  -- Nothing but the dialer closes or returns the dial, and it has come to neither.
  have hdialer : ∀ {o}, t = .dialer r → op = o → .pendingAdd r p = o ∨ .pendingAdd r p ∈ rest := by
    rintro o rfl rfl
    rw [ht] at hold
    exact List.mem_cons.mp hold
  refine ⟨?_, ?_, ?_, ?_, ?_⟩
  · refine Bool.eq_false_iff.mpr fun hl' => ?_
    rw [exec_conns hex r] at hl'
    rcases (connAfter_flags s.shared c op r).2.2.1.mp hl' with hl' | rfl
    · rw [hl] at hl'
      cases hl'
    · rcases hop.1 with hd | rfl | rfl
      · obtain ⟨tail, rfl, hret⟩ := hown.1
        rcases hdialer hd rfl with heq | hin
        · cases heq
        · rcases hret with rfl | rfl <;> simp at hin
      · exact hidle hcl rfl
      · exact hidle hwa rfl
  · rw [exec_conns hex r]
    rcases (connAfter_conn s.shared c op r).2.1 with hw' | ⟨f, b, rfl, hf⟩
    · rw [hw']
      exact hw
    · obtain ⟨rfl, htok⟩ := closeWithBackend_token hg.origin hg.proxy hg.ops hg.sequence ht hf
      refine absurd (List.mem_flatMap.mpr ⟨_, hold, ?_⟩)
        (hg.custody.exclusive.disjoint (.dispatcher b) (.dialer r) (by simp) htok)
      simp [Op.tokens]
  · cases hres' : (s₁.conns r).result with
    | none => rfl
    | some ok =>
        rw [exec_conns hex r] at hres'
        rcases (connAfter_flags s.shared c op r).2.2.2 ok hres' with hres' | rfl
        · rw [hres] at hres'
          cases hres'
        · obtain rfl : rest = [] := hown.1
          rcases hdialer hop.1 rfl with heq | hin
          · cases heq
          · cases hin
  · rw [Function.update_of_ne (hidle hcl), hcl]
  · rw [Function.update_of_ne (hidle hwa), hwa]

theorem DialerInv.exec (h : DialerInv s) (hg : Grounds cfg s) (ht : s.threads t = op :: rest)
    (hex : exec cfg s.shared t c op = some (s₁, ops, start)) :
    DialerInv ⟨s₁, Function.update s.threads t (ops ++ rest)⟩ := by
  have hop := hg.ops t op (by rw [ht]; exact List.mem_cons_self)
  have hconn := exec_conns hex
  obtain ⟨es, hlog, -⟩ := exec_adds hop hex
  have hsub : s.shared.log ⊆ s₁.log := by
    rw [hlog]
    exact List.subset_append_right _ _
  have hmark : ∀ {r}, (s₁.conns r).localClosed = true →
      (s.shared.conns r).localClosed = true ∨ op = .closeMark r := by
    intro r hr
    rw [hconn r] at hr
    exact (connAfter_flags s.shared c op r).2.2.1.mp hr
  refine ⟨fun r x hx hne => ?_, fun r p hadd => h.fresh_exec hg ht hex hadd, fun r hr => ?_,
    fun r hr => ?_, fun r hr => ?_⟩
  · refine (h.callers r x hx fun hnil => hne ?_).mono hsub
    have hxt : x ≠ t := by
      rintro rfl
      rw [ht] at hnil
      cases hnil
    dsimp only
    rw [Function.update_of_ne hxt, hnil]
  · dsimp only
    rw [hconn r]
    rcases hmark hr with hr | rfl
    · obtain ⟨hd, hclosed⟩ := h.closed r hr
      exact ⟨hd.mono hsub, (connAfter_conn s.shared c op r).1 (Or.inl hclosed)⟩
    · exact ⟨hop.2.mono hsub, (connAfter_conn s.shared c (.closeMark r) r).1 (Or.inr rfl)⟩
  · dsimp only
    have hpending := exec_pending hop hex r
    rcases hmark hr with hr | rfl
    · rcases h.pending r hr with hnone | hhas
      · refine Or.inl (hpending.trans ?_)
        cases op with
        | pendingAdd r' p =>
            simp only [Op.pendingAfter]
            split
            · -- The dial was entered before its connection was closed.
              next heq =>
                subst heq
                obtain ⟨hid, ⟨f, b, hf, -, hd⟩, htid⟩ := hop
                have hstream := hg.conn (h.closed r hr).1 (Or.inr ⟨b, hid ▸ hd⟩)
                have htd : t = .dialer r := by
                  rw [htid f hf, Frontend.tid, hstream]
                have hadd : .pendingAdd r p ∈ s.threads (.dialer r) := by
                  rw [← htd, ht]
                  exact List.mem_cons_self
                rw [(h.fresh r p hadd).1] at hr
                cases hr
            · exact hnone
        | pendingRemove r' k =>
            simp only [Op.pendingAfter]
            split
            · rfl
            · exact hnone
        | pendingRemoveForBackend b => simp only [Op.pendingAfter, hnone, Option.filter_none]
        | pendingRemoveForStream u => simp only [Op.pendingAfter, hnone, Option.filter_none]
        | _ => exact hnone
      · refine (hhas.push ht).imp_left ?_
        rintro rfl
        rw [hpending]
        simp [Op.pendingAfter]
    · simp only [Konnectivity.exec] at hex
      cases hex
      by_cases hzero : (s.shared.conns r).connID = 0
      · refine Or.inr (Pool.Has.pushed ?_ rfl)
        simp [hzero]
      · refine Or.inl (Option.eq_none_iff_forall_ne_some.mpr fun p hp => ?_)
        have := h.connID r hzero
        rw [hg.custody.pending r p hp] at this
        exact Nat.lt_irrefl 0 this
  · dsimp only at hr ⊢
    rw [hconn r] at hr
    rcases (connAfter_conn s.shared c op r).2.2 with ⟨hsame, -⟩ |
      ⟨f, pkt, k, resp, rfl, hf, htype, hpay, -, -⟩
    · rw [hsame] at hr
      rw [hlog]
      exact Nat.lt_of_lt_of_le (h.connID r hr) (answers_le_append es _ r)
    · obtain ⟨-, f', hf', hdial⟩ := hop
      cases hf'
      have hans := answersDial_dialRsp htype hpay
      obtain rfl : resp.random = r := hasDial_conn hg.origin hg.proxy hf (hdial _ hans)
      simp only [Konnectivity.exec, ServerState.sendFrontend, hf] at hex
      cases hex
      rw [ServerState.record_log, answers_cons]
      simp [Event.answered, hans]

theorem arrive_caller {s : ServerState} {a : ServerAction} {r : DialID}
    (ht : t = .closer r ∨ t = .watcher r) (harr : arrive cfg s a = some (s₁, some (t, ops))) :
    (s.conns r).result = some true ∨ ∃ b, (s.conns r).watched = some b := by
  cases a with
  | userClose r' =>
      simp only [arrive] at harr
      split at harr <;> cases harr
      next hres =>
        rcases ht with heq | heq <;> cases heq
        exact Or.inl hres
  | watchClose r' =>
      simp only [arrive] at harr
      split at harr
      · cases harr
      · next b hw =>
          split at harr <;> cases harr
          rcases ht with heq | heq <;> cases heq
          exact Or.inr ⟨b, hw⟩
  | _ =>
      simp only [arrive] at harr
      repeat' split at harr
      all_goals cases harr
      all_goals rcases ht with heq | heq <;> cases heq

theorem arrive_dialer {s : ServerState} {a : ServerAction} {r : DialID}
    (harr : arrive cfg s a = some (s₁, some (.dialer r, ops))) :
    ∃ u b n addr, a = .dial u r b n addr := by
  cases a <;> simp only [arrive] at harr <;> repeat' split at harr
  all_goals cases harr
  all_goals exact ⟨_, _, _, _, rfl⟩

theorem DialerInv.arrive (h : DialerInv s) (hg : Grounds cfg s) {a : ServerAction}
    (hdistinct : DistinctDials s.shared a) (harr : arrive cfg s.shared a = some (s₁, start))
    {threads : Tid → List Op} (hthreads : Pool.Arrived s.threads start threads) :
    DialerInv ⟨s₁, threads⟩ := by
  obtain ⟨hpd, -, hnew⟩ := arrive_adds harr
  have hlog : ∃ es, s₁.log = es ++ s.shared.log := by
    rcases hnew with hlog | ⟨e, -, hlog⟩
    · exact ⟨[], hlog⟩
    · exact ⟨[e], hlog⟩
  obtain ⟨es, hlog⟩ := hlog
  have hsub : s.shared.log ⊆ s₁.log := by
    rw [hlog]
    exact List.subset_append_right _ _
  have hcaller : ∀ {r x}, x = .closer r ∨ x = .watcher r → threads x = s.threads x ∨
      ((s.shared.conns r).result = some true ∨ ∃ b, (s.shared.conns r).watched = some b) := by
    intro r x hx
    cases start with
    | none => exact Or.inl (congrFun hthreads x)
    | some st =>
        obtain ⟨y, ops⟩ := st
        obtain ⟨-, rfl⟩ := hthreads
        by_cases hxy : x = y
        · subst hxy
          exact Or.inr (arrive_caller hx harr)
        · exact Or.inl (Function.update_of_ne hxy _ _)
  have hconn := arrive_conns harr
  refine ⟨fun r x hx hne => ?_, fun r p hadd => ?_, fun r hr => ?_, fun r hr => ?_, fun r hr => ?_⟩
  · refine ConnDialed.mono hsub ?_
    rcases hcaller hx with heq | hres | ⟨b, hw⟩
    · exact h.callers r x hx fun hnil => hne (heq.trans hnil)
    · exact hg.origin.result r true hres
    · exact hg.origin.watched r b hw
  · rcases hthreads.of_mem hadd with hold | ⟨ops, rfl, -⟩
    · obtain ⟨hl, hw, hres, hcl, hwa⟩ := h.fresh r p hold
      have hidle : ∀ {x}, x = .closer r ∨ x = .watcher r → s.threads x = [] → threads x = [] := by
        intro x hx hnil
        rcases hcaller hx with heq | hres' | ⟨b, hw'⟩
        · exact heq.trans hnil
        · rw [hres] at hres'
          cases hres'
        · rw [hw] at hw'
          cases hw'
      rcases hconn r with hsame | ⟨u, b, n, addr, rfl, -⟩
      · dsimp only
        rw [hsame]
        exact ⟨hl, hw, hres, hidle (Or.inl rfl) hcl, hidle (Or.inr rfl) hwa⟩
      · obtain ⟨hid, horigin, -⟩ := hg.ops _ _ hold
        obtain ⟨f, b', -, -, hd⟩ := horigin
        exact absurd (Or.inr ⟨b', hid ▸ hd⟩) (hdistinct r rfl f)
    · -- A dial that begins was not known.
      obtain ⟨u, b, n, addr, rfl⟩ := arrive_dialer harr
      have hidle : ∀ {x}, x = .closer r ∨ x = .watcher r → threads x = [] := by
        intro x hx
        have hother : x ≠ .dialer r := by rcases hx with rfl | rfl <;> simp
        obtain ⟨-, rfl⟩ := hthreads
        rw [Function.update_of_ne hother]
        refine Classical.byContradiction fun hne => ?_
        obtain ⟨f, hf⟩ := (h.callers r x hx hne).hasDial
        exact hdistinct r rfl f hf
      have hdef : s₁.conns r = { backend := b } := by
        simp only [Konnectivity.arrive] at harr
        split at harr <;> cases harr
        simp
      dsimp only
      rw [hdef]
      exact ⟨rfl, rfl, rfl, hidle (Or.inl rfl), hidle (Or.inr rfl)⟩
  · dsimp only at hr ⊢
    rcases hconn r with hsame | ⟨u, b, n, addr, -, hdef⟩
    · rw [hsame] at hr ⊢
      exact ⟨(h.closed r hr).1.mono hsub, (h.closed r hr).2⟩
    · rw [hdef] at hr
      cases hr
  · dsimp only at hr ⊢
    rcases hconn r with hsame | ⟨u, b, n, addr, -, hdef⟩
    · rw [hsame] at hr
      rw [hpd]
      refine (h.pending r hr).imp_right ?_
      rintro ⟨x, o, ho, heq⟩
      exact ⟨x, o, hthreads.mem ho, heq⟩
    · rw [hdef] at hr
      cases hr
  · dsimp only at hr ⊢
    rcases hconn r with hsame | ⟨u, b, n, addr, -, hdef⟩
    · rw [hsame] at hr
      rw [hlog]
      exact Nat.lt_of_lt_of_le (h.connID r hr) (answers_le_append es _ r)
    · rw [hdef] at hr
      exact absurd rfl hr

end Dial

theorem server_dialer {cfg : ServerConfig} {okExec : ServerState → Tid → Choice → Op → Prop}
    {okArrive : ServerState → ServerAction → Prop} {s : System.State ServerState Tid Op}
    (hdistinct : ∀ s a, okArrive s a → DistinctDials s a)
    (h : Reach (server cfg).step (System.Allowed okExec okArrive) newServer s) : DialerInv s := by
  refine server_invariant DialerInv ?_ ?_ ?_ ?_ h
  · exact ⟨fun r t _ hne => absurd rfl hne, (fun r p hadd => by cases hadd),
      (fun r hr => by cases hr), (fun r hr => by cases hr), fun r hr => absurd rfl hr⟩
  · intro s t c op rest s₁ ops start hr hinv _ ht _ hex
    exact hinv.exec (server_grounds hdistinct hr) ht hex
  · intro s r b f hinv
    have hother : ∀ x, x ≠ .timer r → Function.update s.threads (.timer r)
        (s.threads (.timer r) ++ [Op.waitTimer r b f]) x = s.threads x :=
      fun x hx => Function.update_of_ne hx _ _
    refine ⟨fun r' x hx hne => ?_, fun r' p hadd => ?_, hinv.closed, fun r' hr => ?_, hinv.connID⟩
    · have hne' : x ≠ .timer r := by rcases hx with rfl | rfl <;> simp
      dsimp only at hne
      rw [hother x hne'] at hne
      exact hinv.callers r' x hx hne
    · dsimp only at hadd ⊢
      rw [hother (.dialer r') (by simp)] at hadd
      rw [hother (.closer r') (by simp), hother (.watcher r') (by simp)]
      exact hinv.fresh r' p hadd
    · refine (hinv.pending r' hr).imp_right ?_
      rintro ⟨x, o, ho, heq⟩
      exact ⟨x, o, mem_timer_of_mem ho, heq⟩
  · intro s a s₁ start threads hr hinv _ hok harr hthreads
    exact hinv.arrive (server_grounds hdistinct hr) (hdistinct _ _ hok) harr hthreads

/-! ## The entry of a connection -/

/-- A successful `DIAL_RSP` carries a connection ID. -/
def NumbersConns : ServerAction → Prop
  | .deliver _ pkt => ∀ r c, pkt.reportsConn = some (r, c) → c ≠ 0
  | _ => True

theorem server_numbered {cfg : ServerConfig} {okExec : ServerState → Tid → Choice → Op → Prop}
    {okArrive : ServerState → ServerAction → Prop} {s : System.State ServerState Tid Op}
    (hnumbers : ∀ s a, okArrive s a → NumbersConns a)
    (h : Reach (server cfg).step (System.Allowed okExec okArrive) newServer s) :
    ∀ b r c, Reported s.shared.log b r c → c ≠ 0 := by
  refine server_invariant (fun s => ∀ b r c, Reported s.shared.log b r c → c ≠ 0) ?_ ?_ ?_ ?_ h
  · rintro b r c ⟨pkt, hp, -⟩
    cases hp
  · rintro s t c op rest s₁ ops start hr hinv - ht - hex b r cid ⟨pkt, hp, hrep⟩
    have hop := (server_origin hr).2 t op (by rw [ht]; exact List.mem_cons_self)
    refine hinv b r cid ⟨pkt, (exec_event hop hex hp).resolve_right fun hadd => ?_, hrep⟩
    cases op <;> simp [Op.Adds] at hadd
  · exact fun hinv => hinv
  · rintro s a s₁ start threads - hinv - hok harr - b r c ⟨pkt, hp, hrep⟩
    rcases arrive_fromBackend harr hp with hp | rfl
    · exact hinv b r c ⟨pkt, hp, hrep⟩
    · exact hnumbers _ _ hok r c hrep

/-- The entry of an in-process connection is being handed over, or the
connection goes by its ID and, once closed, somebody takes the entry away. -/
def EntryInv (cfg : ServerConfig) (s : System.State ServerState Tid Op) : Prop :=
  ∀ a cid p f r, s.shared.established.getFrontend a cid = some p → p.frontend = some f →
    f.stream = .serverConn r → Handing cfg s.threads a cid p ∨
      ((s.shared.conns r).connID = cid ∧ cfg.agentID (s.shared.conns r).backend = a ∧
        ((s.shared.conns r).localClosed = false ∨
          Pool.Has (fun _ o => ∃ b, o = .removeEstablished a cid (.closeConn b r)) s.threads))

section Entry

variable {cfg : ServerConfig} {s : System.State ServerState Tid Op} {s₁ : ServerState} {t : Tid}
  {c : Choice} {op : Op} {ops rest : List Op} {start : Option (Tid × List Op)}

/-- A connection that accepts the `DIAL_RSP` was open and takes the ID. -/
theorem ConnState.send_accepts {x : ConnState} {pkt : Packet} {resp : DialResponse}
    (htype : pkt.type = .dialRsp) (hpay : pkt.payload = some (.dialResponse resp))
    (herr : resp.error = "") (h : (x.send pkt).2 = true) :
    x.closed = false ∧ (x.send pkt).1 = { x with connID := resp.connectID, connected := true } := by
  have hget : pkt.getDialResponse = some resp := Packet.getDialResponse_iff.mpr hpay
  cases hclosed : x.closed with
  | false => exact ⟨rfl, by simp [ConnState.send, htype, hget, herr, hclosed]⟩
  | true => simp [ConnState.send, htype, hget, herr, hclosed] at h

theorem EntryInv.exec (h : EntryInv cfg s) (hg : Grounds cfg s) (hd : DialerInv s)
    (hh : HonestLog s.shared.log) (hnum : ∀ b r c, Reported s.shared.log b r c → c ≠ 0)
    (ht : s.threads t = op :: rest)
    (hex : exec cfg s.shared t c op = some (s₁, ops, start)) :
    EntryInv cfg ⟨s₁, Function.update s.threads t (ops ++ rest)⟩ := by
  intro a cid p f r hp hf hstream
  have hop := hg.ops t op (by rw [ht]; exact List.mem_cons_self)
  have hthen := hg.sequence t
  rw [ht] at hthen
  have hconn := exec_conns hex r
  rcases handing_exec hop hthen.1 ht hex hp with hhand | ⟨hold, hsent⟩
  · exact Or.inl hhand
  · obtain ⟨-, -, ⟨f', b', hf', -, hdial⟩, b'', -, hrep⟩ := hg.origin.established a cid p hold
    obtain rfl : f' = f := Option.some.inj (hf'.symm.trans hf)
    have hid : p.dialID = r := hasDial_conn hg.origin hg.proxy hstream (Or.inr ⟨b', hdial⟩)
    by_cases hhand : Handing cfg s.threads a cid p
    · -- The connection accepts the `DIAL_RSP`.
      obtain ⟨b, f, pkt, resp, rfl, hpf, rfl, hr, hc, hsend⟩ := hsent hhand
      obtain rfl : f = f' := Option.some.inj (hpf.symm.trans hf)
      obtain ⟨⟨-, herr, htype, hpay, hfrom⟩, -⟩ := hop
      have hans := answersDial_dialRsp htype hpay
      simp only [ServerState.sendFrontend, hstream, Option.some.injEq, Prod.mk.injEq] at hsend
      obtain ⟨hopen, hsent⟩ := ConnState.send_accepts htype hpay herr hsend.2
      have hs₁ : s₁.conns r = ((s.shared.conns r).send pkt).1 := by
        rw [← hsend.1]
        simp
      obtain ⟨f₀, hf₀, hd₀⟩ := hg.origin.conn r ⟨f, b', hstream, hid ▸ hdial⟩
      obtain ⟨f₁, hd₁⟩ := hh b pkt resp.random hfrom hans
      have hback := hg.custody.backend f₀ f₁ _ b r hd₀ (by rwa [hr, hid] at hd₁)
      refine Or.inr ?_
      rw [hs₁, hsent]
      refine ⟨hc, by rw [hback], Or.inl (Bool.eq_false_iff.mpr fun hl => ?_)⟩
      rw [(hd.closed r hl).2] at hopen
      cases hopen
    · obtain ⟨hcid, hagent, hwho⟩ := (h a cid p f' r hold hf hstream).resolve_left hhand
      have hne : (s.shared.conns r).connID ≠ 0 := by
        rw [hcid]
        exact hnum _ _ _ hrep
      refine Or.inr ?_
      dsimp only
      rw [hconn]
      obtain ⟨-, -, hsame | ⟨f, pkt, k, resp, rfl, hf₂, htype, hpay, -⟩⟩ :=
        connAfter_conn s.shared c op r
      · refine ⟨hsame.1.trans hcid, ?_, ?_⟩
        · rw [connAfter_backend]
          exact hagent
        · rcases hwho with hl | hhas
          · by_cases hmark : op = .closeMark r
            · subst hmark
              simp only [Konnectivity.exec, if_neg hne] at hex
              cases hex
              exact Or.inr (Pool.Has.pushed (List.mem_singleton.mpr rfl) ⟨_, by rw [hcid, hagent]⟩)
            · refine Or.inl (Bool.eq_false_iff.mpr fun hl' => ?_)
              rcases (connAfter_flags s.shared c op r).2.2.1.mp hl' with hl' | hl'
              · rw [hl] at hl'
                cases hl'
              · exact hmark hl'
          · refine Or.inr ((hhas.push ht).resolve_left ?_)
            rintro ⟨b, rfl⟩
            have hafter := exec_established hop hex a cid
            dsimp only at hp
            rw [hp] at hafter
            simp [Op.entryAfter] at hafter
      · -- The dial was answered already.
        obtain ⟨-, f₃, heq, hdials⟩ := hop
        cases heq
        have hans := answersDial_dialRsp htype hpay
        obtain rfl : resp.random = r := hasDial_conn hg.origin hg.proxy hf₂ (hdials _ hans)
        have hheld : Pool.Held Op.tokens s.threads resp.random :=
          ⟨t, _, by rw [ht]; exact List.mem_cons_self, by simp [Op.tokens, hans]⟩
        have hpos := hd.connID _ hne
        rw [(hg.custody.held _ hheld).2] at hpos
        exact absurd hpos (Nat.lt_irrefl 0)

theorem EntryInv.arrive (h : EntryInv cfg s) (hg : Grounds cfg s) {a : ServerAction}
    (hdistinct : DistinctDials s.shared a) (harr : arrive cfg s.shared a = some (s₁, start))
    {threads : Tid → List Op} (hthreads : Pool.Arrived s.threads start threads) :
    EntryInv cfg ⟨s₁, threads⟩ := by
  intro a' cid p f r hp hf hstream
  obtain ⟨-, hest, -⟩ := arrive_adds harr
  dsimp only at hp ⊢
  rw [hest] at hp
  rcases arrive_conns harr r with hsame | ⟨u, b, n, addr, rfl, -⟩
  · rw [hsame]
    refine (h a' cid p f r hp hf hstream).imp (fun hh => hh.arrive hthreads) ?_
    rintro ⟨hcid, hagent, hwho⟩
    refine ⟨hcid, hagent, hwho.imp_right ?_⟩
    rintro ⟨x, o, ho, heq⟩
    exact ⟨x, o, hthreads.mem ho, heq⟩
  · obtain ⟨-, -, ⟨f', b', hf', -, hdial⟩, -⟩ := hg.origin.established a' cid p hp
    obtain rfl : f' = f := Option.some.inj (hf'.symm.trans hf)
    have hid := hasDial_conn hg.origin hg.proxy hstream (Or.inr ⟨b', hdial⟩)
    exact absurd (Or.inr ⟨b', hid ▸ hdial⟩) (hdistinct r rfl f')

end Entry

/-- Dial IDs are distinct, agents answer only their own dials, and they number
the connections they report. -/
def NumberedDials (s : ServerState) (a : ServerAction) : Prop := HonestDials s a ∧ NumbersConns a

theorem server_entry {cfg : ServerConfig} {okExec : ServerState → Tid → Choice → Op → Prop}
    {okArrive : ServerState → ServerAction → Prop} {s : System.State ServerState Tid Op}
    (harrive : ∀ s a, okArrive s a → NumberedDials s a)
    (h : Reach (server cfg).step (System.Allowed okExec okArrive) newServer s) :
    EntryInv cfg s := by
  have hdistinct : ∀ s a, okArrive s a → DistinctDials s a := fun s a hok => (harrive s a hok).1.1
  refine server_invariant (EntryInv cfg) ?_ ?_ ?_ ?_ h
  · exact fun a cid p f r hp => by cases hp
  · intro s t c op rest s₁ ops start hr hinv _ ht _ hex
    exact hinv.exec (server_grounds hdistinct hr) (server_dialer hdistinct hr)
      (server_honest (fun s a hok => (harrive s a hok).1.2) hr)
      (server_numbered (fun s a hok => (harrive s a hok).2) hr) ht hex
  · intro s r b f hinv a cid p f' r' hp hf hstream
    refine (hinv a cid p f' r' hp hf hstream).imp ?_ ?_
    · rintro ⟨b', ha, o, ho, hcase⟩
      exact ⟨b', ha, o, @mem_timer_of_mem s.threads r [Op.waitTimer r b f] _ o ho, hcase⟩
    · rintro ⟨hcid, hagent, hwho⟩
      refine ⟨hcid, hagent, hwho.imp_right ?_⟩
      rintro ⟨x, o, ho, heq⟩
      exact ⟨x, o, mem_timer_of_mem ho, heq⟩
  · intro s a s₁ start threads hr hinv _ hok harr hthreads
    exact hinv.arrive (server_grounds hdistinct hr) (hdistinct _ _ hok) harr hthreads

/-! ## Dials that failed -/

/-- Once `Close` has returned, the entry of the connection can only be in the
hands of the dispatcher. -/
theorem closed_entry {cfg : ServerConfig} {s : System.State ServerState Tid Op} (hg : Grounds cfg s)
    (he : EntryInv cfg s) {r : DialID} (hr : ConnDialed s.shared.log r)
    (hdone : (s.shared.conns r).closeDone = true) {a : AgentID} {cid : ConnectID}
    {p : ProxyClientConnection} (hp : s.shared.established.getFrontend a cid = some p)
    (hid : p.dialID = r) : Handing cfg s.threads a cid p := by
  have hfinished : ∀ t, .closeFinish r ∉ s.threads t := by
    intro t ht
    have := (hg.close.running r (held_finishes.mpr ⟨t, ht⟩)).2
    rw [hdone] at this
    cases this
  obtain ⟨-, -, ⟨f, b, hf, -, hd⟩, -⟩ := hg.origin.established a cid p hp
  have hstream := hg.conn hr (Or.inr ⟨b, hid ▸ hd⟩)
  refine (he a cid p f r hp hf hstream).resolve_right ?_
  rintro ⟨-, -, hopen | ⟨t, o, ho, b', rfl⟩⟩
  · rcases hg.close.started r (hg.close.done r hdone) with hl | ⟨t, o, ho, rfl⟩
    · rw [hopen] at hl
      cases hl
    · obtain ⟨pre, post, heq, tail, rfl, -⟩ := (hg.sequence t).mem ho
      exact hfinished t (by rw [heq]; simp)
  · obtain ⟨pre, post, heq, tail, rfl, -⟩ := (hg.sequence t).mem ho
    exact hfinished t (by rw [heq]; simp)

/-- No dispatcher is in the middle of a response for the dial, and the
`CLOSE_REQ` that came out of one has been sent. -/
def HandlersDone (s : System.State ServerState Tid Op) (r : DialID) : Prop :=
  (∀ b, ∀ o ∈ s.threads (.dispatcher b), o.ofDialRsp r = false) ∧
    ∀ b c, Reported s.shared.log b r c → ∀ o ∈ s.threads (.dispatcher b), ¬ o.closesConn b c

/-- Nothing is left of the dial: it is not pending, no connection of it is
established, and each one that was reported has been closed since. -/
structure NothingLeft (s : System.State ServerState Tid Op) (r : DialID) : Prop where
  pending : s.shared.pendingDial.pendingDial.lookup r = none
  established : ∀ a c p, s.shared.established.getFrontend a c = some p → p.dialID ≠ r
  closed : ∀ b c, Closed s.shared.log b r c

theorem HandlersDone.not_handing {cfg : ServerConfig} {s : System.State ServerState Tid Op}
    {r : DialID} (h : HandlersDone s r) {a : AgentID} {cid : ConnectID}
    {p : ProxyClientConnection} (hid : p.dialID = r) : ¬ Handing cfg s.threads a cid p := by
  rintro ⟨b, -, o, ho, hcase⟩
  have hfalse := h.1 b o ho
  rcases hcase with ⟨pkt, resp, rfl, hr, -⟩ | rfl
  · simp [Op.ofDialRsp, hr, hid] at hfalse
  · simp [Op.ofDialRsp, hid] at hfalse

theorem reported_of_reports {log : List Event} {e : Event} (he : e ∈ log) {b : BackendId}
    {r : DialID} {c : ConnectID} (h : e.reports b r c = true) : Reported log b r c := by
  cases e with
  | fromBackend b' pkt =>
      simp only [Event.reports, Bool.and_eq_true, beq_iff_eq] at h
      exact ⟨pkt, h.1 ▸ he, h.2⟩
  | _ => cases h

/-- A dial that was given up leaves nothing behind. -/
theorem failed_leaves_nothing {cfg : ServerConfig} {s : System.State ServerState Tid Op}
    (h : Reach (server cfg).step (System.Allowed (FindsOwn cfg) NumberedDials) newServer s)
    {r : DialID} (hres : (s.shared.conns r).result = some false) (hdone : HandlersDone s r) :
    NothingLeft s r := by
  have hg := server_grounds (fun _ _ hok => hok.1.1) h
  have hd := server_dialer (fun _ _ hok => hok.1.1) h
  have he := server_entry (fun _ _ hok => hok) h
  have hlive := server_live (fun _ _ _ _ hok => hok) (fun _ _ hok => hok.1) h
  have hdialed := hg.origin.result r false hres
  have hclosed := hg.close.result r hres
  have hfinished : ∀ t, .closeFinish r ∉ s.threads t := by
    intro t ht
    have := (hg.close.running r (held_finishes.mpr ⟨t, ht⟩)).2
    rw [hclosed] at this
    cases this
  have hmarked : (s.shared.conns r).localClosed = true := by
    refine (hg.close.started r (hg.close.done r hclosed)).resolve_right ?_
    rintro ⟨t, o, ho, rfl⟩
    obtain ⟨pre, post, heq, tail, rfl, -⟩ := (hg.sequence t).mem ho
    exact hfinished t (by rw [heq]; simp)
  have hentry : ∀ a c p, s.shared.established.getFrontend a c = some p → p.dialID ≠ r :=
    fun a c p hp hid => hdone.not_handing hid (closed_entry hg he hdialed hclosed hp hid)
  refine ⟨?_, hentry, fun b c => ?_⟩
  · refine (hd.pending r hmarked).resolve_right ?_
    rintro ⟨t, o, ho, rfl⟩
    obtain ⟨pre, post, heq, tail, rfl, -⟩ := (hg.sequence t).mem ho
    exact hfinished t (by rw [heq]; simp)
  · by_cases hzero : c = 0
    · -- No connection is reported without an ID.
      intro later e earlier hlog hrep
      have hmem : e ∈ s.shared.log := by
        rw [hlog]
        simp
      exact absurd hzero
        (server_numbered (fun _ _ hok => hok.2) h b r c (reported_of_reports hmem hrep))
    · refine closed_of_not_live fun hl => ?_
      rcases hlive.tracked b r c hzero hl with ⟨o, ho, hest⟩ | ⟨p, hp, hid⟩ | ⟨t, o, ho, hcl, hcc⟩
      · have hfalse := hdone.1 b o ho
        cases o with
        | pendingRemove r' k =>
            cases k with
            | dialRsp b' resp pkt => simp [Op.ofDialRsp, hest.1] at hfalse
            | _ => exact hest.elim
        | addEstablished b' c' p => simp [Op.ofDialRsp, hest.2.2] at hfalse
        | _ => exact hest.elim
      · exact hentry _ _ p hp hid
      · rcases hcl with rfl | ⟨f, hf, rfl⟩ | ⟨hcl, hqueue⟩
        · exact hdone.2 b c hl.reported o ho hcc
        · -- No handler serves the frontend of an in-process dial.
          obtain ⟨f', b', hf', hd'⟩ := hdialed
          obtain rfl := hg.custody.frontend f f' r hf (Or.inr ⟨b', hd'⟩)
          rw [(hg.stream.conn f b' r hd' (by rw [hf']; simp)).2.1] at ho
          cases ho
        · exact hfinished t (closer_finishing hg.ops hg.sequence hcl ho hqueue hcc).1

end Konnectivity
