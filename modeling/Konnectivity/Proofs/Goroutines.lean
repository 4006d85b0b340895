import Konnectivity.Proofs.Endpoint

/-!
# The goroutines of the agent client

Every operation belongs to one goroutine, a goroutine has one operation to
perform at a time, and the goroutines of a connection are started once: while
the dial goroutine has one of them still to start, it is idle.
-/

namespace Konnectivity.Agent.Client

open Lib

def CleanCaller.tid (k : ConnID) : CleanCaller → Tid
  | .serve | .exit _ => .serve
  | .reader => .reader k
  | .cleaner => .cleaner k

def SendCaller.tid : SendCaller → Tid
  | .dialFailed k | .dialOk k => .dial k
  | .cleanup k caller => caller.tid k
  | .data k => .sender k
  | .serve => .serve
  | .drain => .drain

/-- The goroutine an operation belongs to. -/
@[grind =]
def Op.tid : Op → Tid
  | .serveLoop | .recv | .recvFailed | .serve _ | .sendViaDataChannel .. | .list | .cleanupAll _
  | .serveReturn => .serve
  | .send _ caller | .streamSend _ caller _ | .removeClient caller | .sendReturn caller _ =>
      caller.tid
  | .netDial k _ | .addConn k | .failSendDone k _ | .discardSendCh k | .startCleaner k
  | .startReader k | .startSender k | .startWriter k | .closeDialDone k => .dial k
  | .cleanup k caller | .waitDialDone k caller | .closeSendCh k caller | .waitSendDone k caller
  | .closeDataCh k caller | .deleteConn k caller | .connClose k caller | .onceDone k caller =>
      caller.tid k
  | .connRead k | .sendChSend k _ => .reader k
  | .sendChRecv k | .drainSendCh k | .closeSendDone k => .sender k
  | .dataChRecv k | .connWrite k _ | .drainDataCh k => .writer k

def SendCaller.starts : SendCaller → List Tid
  | .dialOk k => [.reader k, .sender k, .writer k, .cleaner k]
  | _ => []

/-- The goroutines that may still be started. -/
@[grind =]
def Op.starts : Op → List Tid
  | .send _ caller | .streamSend _ caller _ | .removeClient caller | .sendReturn caller _ =>
      caller.starts
  | .netDial k _ | .addConn k => [.reader k, .sender k, .writer k, .cleaner k]
  | .startReader k => [.reader k, .sender k, .writer k]
  | .startSender k => [.sender k, .writer k]
  | .startWriter k => [.writer k]
  | .failSendDone k true | .startCleaner k => [.cleaner k]
  | _ => []

/-- A goroutine to be started has one operation, which starts none of those
the starting one still has to start. -/
def Started (s : ClientState) (op : Op) (ops : List Op) : Option (Tid × List Op) → Prop
  | none => True
  | some (t', ops') => ∃ o, ops' = [o] ∧ o.tid = t' ∧
      ((t' ∈ op.starts ∧ o.starts = [] ∧ ∀ o' ∈ ops, t' ∉ o'.starts) ∨
        (t' = .dial (s.nextConnID + 1) ∧ ∀ t ∈ o.starts, t.conn = s.nextConnID + 1))

section Steps

variable {s s₁ : ClientState} {t : Tid} {c : Choice} {op : Op} {ops : List Op}
  {start : Option (Tid × List Op)}

theorem SendCaller.returned_shape (caller : SendCaller) (ok : Bool) :
    (caller.returned ok).length ≤ 1 ∧ ∀ o ∈ caller.returned ok, o.tid = caller.tid ∧
      ∀ t' ∈ o.starts, t' ∈ caller.starts := by
  cases caller <;> cases ok
  all_goals first
    | exact ⟨le_rfl, List.forall_mem_singleton.mpr ⟨rfl, fun _ h => absurd h List.not_mem_nil⟩⟩
    | exact ⟨Nat.zero_le _, fun _ ho => absurd ho List.not_mem_nil⟩
    | simp [SendCaller.returned, SendCaller.tid, SendCaller.starts, Op.tid, Op.starts]

theorem CleanCaller.returned_shape (k : ConnID) (caller : CleanCaller) :
    caller.returned.length ≤ 1 ∧ ∀ o ∈ caller.returned, o.tid = caller.tid k ∧ o.starts = [] := by
  cases caller <;> simp [CleanCaller.returned, CleanCaller.tid, Op.tid, Op.starts]

theorem servePacket_shape {pkt : Packet} (hex : servePacket s pkt = (s₁, ops, start)) :
    ops.length ≤ 1 ∧ (∀ o ∈ ops, o.tid = .serve ∧ o.starts = []) ∧
      Started s (.serve pkt) ops start := by
  simp only [servePacket] at hex
  repeat' split at hex
  all_goals cases hex
  all_goals first
    | exact ⟨le_rfl, List.forall_mem_singleton.mpr ⟨rfl, rfl⟩, trivial⟩
    | simp [Started, Op.tid, Op.starts, CleanCaller.tid, SendCaller.tid, SendCaller.starts,
        Tid.conn]

theorem shape_nil : ([] : List Op).length ≤ 1 ∧
    (∀ o ∈ ([] : List Op), o.tid = op.tid ∧ ∀ t' ∈ o.starts, t' ∈ op.starts) ∧
      Started s op [] none :=
  ⟨Nat.zero_le _, fun _ ho => absurd ho List.not_mem_nil, trivial⟩

theorem shape_one {o : Op} (htid : o.tid = op.tid) (hsub : o.starts ⊆ op.starts) :
    [o].length ≤ 1 ∧ (∀ o' ∈ [o], o'.tid = op.tid ∧ ∀ t' ∈ o'.starts, t' ∈ op.starts) ∧
      Started s op [o] none := by
  refine ⟨le_rfl, fun o' ho' => ?_, trivial⟩
  rw [List.mem_singleton.mp ho']
  exact ⟨htid, fun _ h => hsub h⟩

/-- What an operation is followed by. -/
theorem exec_shape (hex : exec s t c op = some (s₁, ops, start)) :
    ops.length ≤ 1 ∧ (∀ o ∈ ops, o.tid = op.tid ∧ ∀ t' ∈ o.starts, t' ∈ op.starts) ∧
      Started s op ops start := by
  cases op with
  | serve pkt =>
      obtain ⟨h1, h2, h3⟩ := servePacket_shape (Option.some.inj hex)
      refine ⟨h1, fun o ho => ⟨(h2 o ho).1, fun t' ht' => ?_⟩, h3⟩
      rw [(h2 o ho).2] at ht'
      cases ht'
  | sendReturn caller ok =>
      obtain ⟨h1, h2⟩ := caller.returned_shape ok
      cases hex
      exact ⟨h1, h2, trivial⟩
  | onceDone k caller =>
      obtain ⟨h1, h2⟩ := caller.returned_shape k
      cases hex
      refine ⟨h1, fun o ho => ⟨(h2 o ho).1, fun t' ht' => ?_⟩, trivial⟩
      rw [(h2 o ho).2] at ht'
      cases ht'
  | cleanup k caller =>
      obtain ⟨h1, h2⟩ := caller.returned_shape k
      simp only [exec] at hex
      split at hex
      · cases hex
        refine ⟨h1, fun o ho => ⟨(h2 o ho).1, fun t' ht' => ?_⟩, trivial⟩
        rw [(h2 o ho).2] at ht'
        cases ht'
      · split at hex <;> cases hex
        exact shape_one rfl (List.nil_subset _)
  | cleanupAll rest =>
      cases rest <;> simp only [exec] at hex <;> repeat' split at hex
      all_goals cases hex
      all_goals exact shape_one rfl (List.nil_subset _)
  | failSendDone k dialed =>
      simp only [exec, closeCh] at hex
      split at hex <;> cases hex
      · exact shape_nil
      · cases dialed
        · exact shape_one rfl (List.nil_subset _)
        · exact shape_one rfl (List.Subset.refl _)
  | serveLoop =>
      simp only [exec] at hex
      cases hex
      split <;> exact shape_one rfl (List.nil_subset _)
  | startReader k =>
      cases hex
      simp [Started, Op.tid, Op.starts]
  | startSender k =>
      cases hex
      simp [Started, Op.tid, Op.starts]
  | startWriter k =>
      cases hex
      simp [Started, Op.tid, Op.starts]
  | startCleaner k =>
      cases hex
      simp [Started, Op.tid, Op.starts, CleanCaller.tid]
  | netDial k dialed =>
      simp only [exec] at hex
      repeat' split at hex
      all_goals cases hex
      all_goals first
        | exact shape_one rfl (List.Subset.refl _)
        | exact shape_one rfl (List.nil_subset _)
  | addConn k =>
      cases hex
      exact shape_one rfl (List.Subset.refl _)
  | _ =>
      simp only [exec, closeCh] at hex
      repeat' split at hex
      all_goals cases hex
      all_goals first
        | exact shape_nil
        | exact shape_one rfl (List.nil_subset _)
        | exact shape_one rfl (List.Subset.refl _)

end Steps

theorem starts_dial {o : Op} {t' : Tid} (h : t' ∈ o.starts) :
    o.tid = .dial t'.conn ∧ (∀ k, t' ≠ .dial k) ∧ t' ≠ .drain := by
  have hcaller : ∀ {caller : SendCaller}, t' ∈ caller.starts →
      caller.tid = .dial t'.conn ∧ (∀ k, t' ≠ .dial k) ∧ t' ≠ .drain := by
    intro caller h
    cases caller <;> simp [SendCaller.starts] at h
    rcases h with rfl | rfl | rfl | rfl <;> simp [SendCaller.tid, Tid.conn]
  cases o with
  | send _ caller => exact hcaller h
  | streamSend _ caller _ => exact hcaller h
  | removeClient caller => exact hcaller h
  | sendReturn caller _ => exact hcaller h
  | failSendDone k dialed =>
      cases dialed <;> simp [Op.starts] at h
      subst h
      simp [Op.tid, Tid.conn]
  | _ =>
      simp [Op.starts] at h
      all_goals rcases h with rfl | rfl | rfl | rfl
      all_goals simp [Op.tid, Tid.conn]

/-- The shape of the goroutines. -/
structure Shaped (pool : Tid → List Op) : Prop where
  own : ∀ t, ∀ o ∈ pool t, o.tid = t
  single : ∀ t, (pool t).length ≤ 1
  idle : ∀ t, ∀ o ∈ pool t, ∀ t' ∈ o.starts, pool t' = []

section Pool

variable {pool : Tid → List Op} {t t' : Tid} {o : Op} {ops rest : List Op}

theorem Shaped.rest_nil (h : Shaped pool) (ht : pool t = o :: rest) : rest = [] := by
  have hlen := h.single t
  rw [ht, List.length_cons] at hlen
  exact List.eq_nil_of_length_eq_zero (by omega)

theorem Shaped.push (h : Shaped pool) (ht : pool t = [o]) (hlen : ops.length ≤ 1)
    (hops : ∀ o' ∈ ops, o'.tid = o.tid ∧ ∀ t' ∈ o'.starts, t' ∈ o.starts) :
    Shaped (Function.update pool t ops) := by
  have hmem : o ∈ pool t := by
    rw [ht]
    exact List.mem_cons_self
  -- what is idle was not the goroutine that acts
  have hnil : ∀ {t'}, pool t' = [] → Function.update pool t ops t' = [] := by
    intro t' hnil
    rw [Function.update_of_ne, hnil]
    rintro rfl
    rw [hnil] at ht
    cases ht
  refine ⟨fun t' o' ho' => ?_, fun t' => ?_, fun t' o' ho' t'' ht'' => hnil ?_⟩
  · by_cases htt : t' = t
    · subst htt
      rw [Function.update_self] at ho'
      exact (hops o' ho').1.trans (h.own t' o hmem)
    · rw [Function.update_of_ne htt] at ho'
      exact h.own t' o' ho'
  · by_cases htt : t' = t
    · subst htt
      rw [Function.update_self]
      exact hlen
    · rw [Function.update_of_ne htt]
      exact h.single t'
  · by_cases htt : t' = t
    · subst htt
      rw [Function.update_self] at ho'
      exact h.idle t' o hmem t'' ((hops o' ho').2 t'' ht'')
    · rw [Function.update_of_ne htt] at ho'
      exact h.idle t' o' ho' t'' ht''

theorem Shaped.start (h : Shaped pool) (ht : pool t = []) (hown : o.tid = t)
    (hfree : ∀ t', ∀ o' ∈ pool t', t ∉ o'.starts) (hidle : ∀ t' ∈ o.starts, pool t' = []) :
    Shaped (Function.update pool t [o]) := by
  refine ⟨fun t' o' ho' => ?_, fun t' => ?_, fun t' o' ho' t'' ht'' => ?_⟩
  · by_cases htt : t' = t
    · subst htt
      rw [Function.update_self] at ho'
      rw [List.mem_singleton.mp ho', hown]
    · rw [Function.update_of_ne htt] at ho'
      exact h.own t' o' ho'
  · by_cases htt : t' = t
    · subst htt
      rw [Function.update_self]
      exact Nat.le_refl _
    · rw [Function.update_of_ne htt]
      exact h.single t'
  · by_cases htt : t' = t
    · subst htt
      rw [Function.update_self] at ho'
      rw [List.mem_singleton.mp ho'] at ht''
      rw [Function.update_of_ne, hidle t'' ht'']
      rintro rfl
      obtain ⟨h1, h2, -⟩ := starts_dial ht''
      exact h2 _ (hown.symm.trans h1)
    · rw [Function.update_of_ne htt] at ho'
      rw [Function.update_of_ne, h.idle t' o' ho' t'' ht'']
      rintro rfl
      exact hfree t' o' ho' ht''

end Pool

theorem agent_shaped {xfrChannelSize fromServer toServer : Nat}
    {s : System.State ClientState Tid Op} (h : Reach client.step System.unrestricted
      (newAgentClient xfrChannelSize fromServer toServer) s) : Shaped s.threads := by
  refine System.invariant_state (fun s => Shaped s.threads) ?_ ?_ ?_ h
  · have hserve : ∀ t, ∀ o ∈ (newAgentClient xfrChannelSize fromServer toServer).threads t,
        t = .serve ∧ o = .serveLoop := by
      intro t o ho
      by_cases ht : t = .serve
      · simp only [newAgentClient, ht, if_pos, List.mem_singleton] at ho
        exact ⟨ht, ho⟩
      · simp [newAgentClient, ht] at ho
    refine ⟨fun t o ho => ?_, fun t => ?_, fun t o ho t' ht' => ?_⟩
    · obtain ⟨rfl, rfl⟩ := hserve t o ho
      rfl
    · by_cases ht : t = .serve <;> simp [newAgentClient, ht]
    · obtain ⟨rfl, rfl⟩ := hserve t o ho
      cases ht'
  · intro s t c o rest s₁ ops start hr hinv _ ht _ hex
    obtain ⟨hlen, hops, hstart⟩ := exec_shape hex
    obtain rfl := hinv.rest_nil ht
    have hmem : o ∈ s.threads t := by
      rw [ht]
      exact List.mem_cons_self
    have hpush := hinv.push ht hlen hops
    rw [List.append_nil]
    cases start with
    | none => exact hpush
    | some st =>
        obtain ⟨t₂, ops₂⟩ := st
        obtain ⟨o₂, rfl, htid₂, hwhich⟩ := hstart
        have hupdate : ∀ {t'}, s.threads t' = [] → Function.update s.threads t ops t' = [] := by
          intro t' hnil
          rw [Function.update_of_ne, hnil]
          rintro rfl
          rw [hnil] at ht
          cases ht
        have hunused : ∀ t', t'.conn = s.shared.nextConnID + 1 → s.threads t' = [] :=
          fun t' ht' => unused_idle hr (by rw [ht']; exact Nat.lt_succ_self _)
        have hnil : Function.update s.threads t ops t₂ = [] := by
          refine hupdate ?_
          rcases hwhich with ⟨hin, -, -⟩ | ⟨rfl, -⟩
          · exact hinv.idle t o hmem t₂ hin
          · exact hunused _ rfl
        show Shaped (Function.update _ _ _)
        rw [hnil, List.nil_append]
        refine hpush.start hnil htid₂ (fun t' o' ho' hin => ?_) fun t' ht' => ?_
        · rcases hwhich with ⟨hin₂, -, hlast⟩ | ⟨rfl, -⟩
          · -- only the dial goroutine of the connection starts it, and that one just did
            have htt : t' = t := by
              rw [← hpush.own t' o' ho', ← hinv.own t o hmem, (starts_dial hin).1,
                (starts_dial hin₂).1]
            subst htt
            rw [Function.update_self] at ho'
            exact hlast o' ho' hin
          · exact (starts_dial hin).2.1 _ rfl
        · rcases hwhich with ⟨-, hnone, -⟩ | ⟨-, hconn⟩
          · rw [hnone] at ht'
            cases ht'
          · exact hupdate (hunused t' (hconn t' ht'))
  · intro s a s₁ start threads _ hinv _ _ harr hthreads
    cases start with
    | none =>
        rw [show threads = s.threads from hthreads]
        exact hinv
    | some st =>
        obtain ⟨hidle, rfl⟩ := hthreads
        cases a <;> simp only [client, arrive] at harr <;> repeat' split at harr
        all_goals cases harr
        exact hinv.start hidle rfl (fun t' o' _ hin => (starts_dial hin).2.2 rfl)
          fun t' ht' => (by cases ht')

end Konnectivity.Agent.Client
