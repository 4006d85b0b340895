import Konnectivity.Proofs.Effects

/-!
# A dial is answered at most once

The right to answer a dial is a token. It comes into being with the
`DIAL_REQ`, lies in the pending map while the dial is pending, and is carried
by one operation of one goroutine otherwise: by the handler until the dial is
entered in the map, by whoever removed it from the map until the answer has
been handed over. A goroutine that finds the map empty gets no token and
sends no answer. So it does not matter which of the code paths that remove a
pending dial comes first, or how many of them run.

The invariant also says that a dial belongs to one frontend and goes to one
backend, and that an HTTP-CONNECT stream, which has a single dial, closes
`connected` only with the answer to it.
-/

namespace Konnectivity

open Lib

/-! ## Tokens -/

/-- The dials an operation has the right to answer. -/
def Op.tokens : Op → List DialID
  | .pendingAdd random _ => [random]
  | .selectBackend _ req _ => [req.random]
  | .sendFrontend _ pkt _ => pkt.answersDial.toList
  | _ => []

/-- The dials an operation has yet to find a backend for. -/
def Op.selecting : Op → List DialID
  | .selectBackend _ req _ => [req.random]
  | _ => []

/-- The dial that is answered by handing over a packet. -/
def Event.answered : Event → Option DialID
  | .toFrontend _ _ pkt _ => pkt.answersDial
  | _ => none

/-- How many answers to the dial were handed to a frontend. -/
def answers (log : List Event) (r : DialID) : Nat :=
  (log.filterMap Event.answered).count r

theorem answers_cons (e : Event) (log : List Event) (r : DialID) :
    answers (e :: log) r = answers log r + if e.answered = some r then 1 else 0 := by
  unfold answers
  rw [List.filterMap_cons]
  cases e.answered with
  | none => simp
  | some x => simp [List.count_cons]

theorem answers_quiet {e : Event} (he : e.answered = none) (log : List Event) (r : DialID) :
    answers (e :: log) r = answers log r := by
  rw [answers_cons, he]
  simp

theorem answers_append_quiet {es : List Event} (hes : ∀ e ∈ es, e.answered = none)
    (log : List Event) (r : DialID) : answers (es ++ log) r = answers log r := by
  induction es with
  | nil => rfl
  | cons e es ih =>
      rw [List.cons_append, answers_quiet (hes e List.mem_cons_self),
        ih fun x hx => hes x (List.mem_cons_of_mem _ hx)]

/-! ## What an operation does to the tokens -/

/-- One operation: the tokens it brings in are its own or come out of the
pending map, what it puts into the map is its own, and it answers only a dial
whose token it carries, which is used up by that. -/
structure TokenStep (s s₁ : ServerState) (op : Op) (ops : List Op) : Prop where
  nodup : (ops.flatMap Op.tokens).Nodup
  source : ∀ k ∈ ops.flatMap Op.tokens,
    (k ∈ op.tokens ∧
      s₁.pendingDial.pendingDial.lookup k = s.pendingDial.pendingDial.lookup k) ∨
    ((∃ p, s.pendingDial.pendingDial.lookup k = some p) ∧
      s₁.pendingDial.pendingDial.lookup k = none)
  pending : ∀ k p, s₁.pendingDial.pendingDial.lookup k = some p →
    s.pendingDial.pendingDial.lookup k = some p ∨ k ∈ op.tokens
  answers : ∀ k, answers s₁.log k = answers s.log k ∨
    (k ∈ op.tokens ∧ k ∉ ops.flatMap Op.tokens ∧
      s₁.pendingDial.pendingDial.lookup k = s.pendingDial.pendingDial.lookup k ∧
      answers s₁.log k = answers s.log k + 1)

theorem TokenStep.quiet {s s₁ : ServerState} {op : Op} {ops : List Op}
    (hops : ops.flatMap Op.tokens = [])
    (hpending : ∀ k p, s₁.pendingDial.pendingDial.lookup k = some p →
      s.pendingDial.pendingDial.lookup k = some p)
    (hanswers : ∀ k, Konnectivity.answers s₁.log k = Konnectivity.answers s.log k) :
    TokenStep s s₁ op ops where
  nodup := by rw [hops]; exact List.nodup_nil
  source k hk := by rw [hops] at hk; cases hk
  pending k p hp := Or.inl (hpending k p hp)
  answers k := Or.inl (hanswers k)

theorem AfterRemove.next_tokens_none (agentID : BackendId → AgentID) (r : DialID)
    (k : AfterRemove) : (k.next agentID r none).flatMap Op.tokens = [] := by
  cases k with
  | dialRsp b resp pkt =>
      simp only [AfterRemove.next]
      split <;> rfl
  | _ => rfl

/-- Whoever removed the pending dial has its token, or drops it. -/
theorem AfterRemove.next_tokens_some {log : List Event} {t : Tid} {r : DialID}
    {k : AfterRemove} (hk : k.Origin log t r) (agentID : BackendId → AgentID)
    (p : ProxyClientConnection) :
    (k.next agentID r (some p)).flatMap Op.tokens = [] ∨
      (k.next agentID r (some p)).flatMap Op.tokens = [r] := by
  cases k with
  | dialRsp b resp pkt =>
      obtain ⟨-, hr, htype, hpay, -⟩ := hk
      have hans : pkt.answersDial = some r := by simp [Packet.answersDial, htype, hpay, hr]
      simp only [AfterRemove.next]
      split <;> simp [Op.tokens, hans]
  | dialCls pkt =>
      have hans : pkt.answersDial = some r := by simp [Packet.answersDial, hk.1, hk.2]
      exact Or.inr (by simp [AfterRemove.next, Op.tokens, hans])
  | sendFailed f err => exact Or.inr rfl
  | cancel => exact Or.inl rfl
  | timeout f => exact Or.inr rfl
  | failDial b tell =>
      simp only [AfterRemove.next]
      split <;> exact Or.inl rfl
  | closeConn => exact Or.inl rfl

theorem AfterEstablished.next_tokens {cfg : ServerConfig} {log : List Event} {t : Tid}
    {a : AgentID} {c : ConnectID} {k : AfterEstablished} (hk : k.Origin cfg log t a c)
    (p : Option ProxyClientConnection) : (k.next c p).flatMap Op.tokens = [] := by
  cases k with
  | undo b r => cases p <;> rfl
  | closeRsp pkt =>
      cases p with
      | none => rfl
      | some p =>
          obtain ⟨b, -, -, -, htype, -⟩ := hk
          have hans : pkt.answersDial = none := by simp [Packet.answersDial, htype]
          simp [AfterEstablished.next, Op.tokens, hans]
  | closeConn b r => cases p <;> rfl

theorem AfterBackend.next_tokens (b : BackendId) (err : String) (k : AfterBackend)
    (ok : Bool) : (k.next b err ok).flatMap Op.tokens = [] := by
  cases k <;> cases ok <;> rfl

theorem AfterFrontend.next_tokens (agentID : BackendId → AgentID) (k : AfterFrontend)
    (ok : Bool) : (k.next agentID ok).flatMap Op.tokens = [] := by
  cases k <;> cases ok <;> rfl

theorem DialCase.next_tokens (b : BackendId) (r : DialID) (k : DialCase) :
    (k.next b r).flatMap Op.tokens = [] := by
  cases k <;> rfl

section Exec

variable {cfg : ServerConfig} {s s₁ : ServerState} {t : Tid} {c : Choice} {ops : List Op}
  {start : Option (Tid × List Op)}

theorem pendingRemove_tokens {r : DialID} {k : AfterRemove}
    (hop : (Op.pendingRemove r k).Origin cfg s.log t)
    (hex : exec cfg s t c (.pendingRemove r k) = some (s₁, ops, start)) :
    TokenStep s s₁ (.pendingRemove r k) ops ∧
    ∀ t' ops', start = some (t', ops') → ops'.flatMap Op.tokens = [] := by
  simp only [exec, Option.some.injEq, Prod.mk.injEq] at hex
  obtain ⟨rfl, rfl, rfl⟩ := hex
  have hpending : ∀ k p, (s.pendingDial.remove r).2.pendingDial.lookup k = some p →
      s.pendingDial.pendingDial.lookup k = some p := by
    intro k p hp
    rw [PendingDialManager.remove_lookup] at hp
    split at hp
    · cases hp
    · exact hp
  refine ⟨?_, by simp⟩
  rw [PendingDialManager.remove_fst]
  cases hpd : s.pendingDial.pendingDial.lookup r with
  | none =>
      exact .quiet (AfterRemove.next_tokens_none ..) hpending fun _ => rfl
  | some p =>
      rcases AfterRemove.next_tokens_some hop cfg.agentID p with htok | htok
      · exact .quiet htok hpending fun _ => rfl
      · refine ⟨?_, fun x hx => ?_, fun x q hq => Or.inl (hpending x q hq),
          fun _ => Or.inl rfl⟩
        · rw [htok]
          exact List.nodup_singleton _
        · rw [htok, List.mem_singleton] at hx
          subst hx
          exact Or.inr ⟨⟨p, hpd⟩, by rw [PendingDialManager.remove_lookup, if_pos rfl]⟩

theorem pendingRemoveForBackend_tokens (h : SharedOrigin cfg s) {b : BackendId}
    (hex : exec cfg s t c (.pendingRemoveForBackend b) = some (s₁, ops, start)) :
    TokenStep s s₁ (.pendingRemoveForBackend b) ops ∧
    ∀ t' ops', start = some (t', ops') → ops'.flatMap Op.tokens = [] := by
  simp only [exec] at hex
  split at hex
  · next hperm =>
      simp only [Option.some.injEq, Prod.mk.injEq] at hex
      obtain ⟨rfl, rfl, rfl⟩ := hex
      have htok : (c.order.map fun p => Op.sendFrontend p.frontend
          (.newDialFailure p.dialID errBackendClosedWhileDialing) .done).flatMap Op.tokens =
          c.order.map (·.dialID) := by
        rw [List.flatMap_map, List.map_eq_flatMap]
        rfl
      refine ⟨⟨?_, fun x hx => ?_, fun x q hq => ?_, fun _ => Or.inl ?_⟩, by simp⟩
      · rw [htok]
        exact (hperm.map _).nodup_iff.mpr
          (PendingDialManager.removeForBackend_nodup fun r p hp => (h.pending r p hp).1)
      · rw [htok] at hx
        obtain ⟨p, hp, rfl⟩ := List.mem_map.mp hx
        obtain ⟨r, hr, hb⟩ := PendingDialManager.mem_removeForBackend.mp (hperm.subset hp)
        have hid := (h.pending r p hr).1
        refine Or.inr ⟨⟨p, hid ▸ hr⟩, ?_⟩
        show (s.pendingDial.removeForBackend (some b)).2.pendingDial.lookup p.dialID = none
        rw [PendingDialManager.removeForBackend_lookup, hid, hr]
        simp [Option.filter, hb]
      · have hq' : (s.pendingDial.removeForBackend (some b)).2.pendingDial.lookup x =
          some q := hq
        rw [PendingDialManager.removeForBackend_lookup] at hq'
        exact Or.inl (Option.filter_eq_some_iff.mp hq').1
      · exact answers_quiet rfl ..
  · cases hex

theorem pendingRemoveForStream_tokens {u : StreamUID}
    (hop : (Op.pendingRemoveForStream u).Origin cfg s.log t)
    (hex : exec cfg s t c (.pendingRemoveForStream u) = some (s₁, ops, start)) :
    TokenStep s s₁ (.pendingRemoveForStream u) ops ∧
    ∀ t' ops', start = some (t', ops') → ops'.flatMap Op.tokens = [] := by
  obtain ⟨rfl, hu⟩ := hop
  simp only [exec] at hex
  split at hex
  · simp only [Option.some.injEq, Prod.mk.injEq] at hex
    obtain ⟨rfl, rfl, rfl⟩ := hex
    refine ⟨.quiet ?_ (fun x q hq => ?_) fun _ => rfl, by simp⟩
    · rw [List.flatMap_map]
      exact List.flatMap_eq_nil_iff.mpr fun _ _ => rfl
    · rw [PendingDialManager.removeForStream_lookup hu] at hq
      exact (Option.filter_eq_some_iff.mp hq).1
  · cases hex

theorem removeEstablished_tokens {a : AgentID} {cid : ConnectID} {k : AfterEstablished}
    (hop : (Op.removeEstablished a cid k).Origin cfg s.log t)
    (hex : exec cfg s t c (.removeEstablished a cid k) = some (s₁, ops, start)) :
    TokenStep s s₁ (.removeEstablished a cid k) ops ∧
    ∀ t' ops', start = some (t', ops') → ops'.flatMap Op.tokens = [] := by
  simp only [exec] at hex
  split at hex
  · simp only [Option.some.injEq, Prod.mk.injEq] at hex
    obtain ⟨rfl, rfl, rfl⟩ := hex
    exact ⟨.quiet (AfterEstablished.next_tokens hop none) (fun _ _ hp => hp) fun _ => rfl,
      by simp⟩
  · simp only [Option.some.injEq, Prod.mk.injEq] at hex
    obtain ⟨rfl, rfl, rfl⟩ := hex
    exact ⟨.quiet (AfterEstablished.next_tokens hop (some _)) (fun _ _ hp => hp)
      fun _ => answers_quiet rfl .., by simp⟩

theorem getFrontend_tokens {b : BackendId} {cid : ConnectID} {pkt : Packet}
    (hop : (Op.getFrontend b cid pkt).Origin cfg s.log t)
    (hex : exec cfg s t c (.getFrontend b cid pkt) = some (s₁, ops, start)) :
    TokenStep s s₁ (.getFrontend b cid pkt) ops ∧
    ∀ t' ops', start = some (t', ops') → ops'.flatMap Op.tokens = [] := by
  obtain ⟨-, -, htype, -⟩ := hop
  have hans : pkt.answersDial = none := by simp [Packet.answersDial, htype]
  simp only [exec] at hex
  split at hex
  · simp only [Option.some.injEq, Prod.mk.injEq] at hex
    obtain ⟨rfl, rfl, rfl⟩ := hex
    exact ⟨.quiet rfl (fun _ _ hp => hp) fun _ => rfl, by simp⟩
  · simp only [Option.some.injEq, Prod.mk.injEq] at hex
    obtain ⟨rfl, rfl, rfl⟩ := hex
    exact ⟨.quiet (by simp [Op.tokens, hans]) (fun _ _ hp => hp) fun _ => rfl, by simp⟩

theorem removeEstablishedForBackendConn_tokens {b : BackendId}
    (hex : exec cfg s t c (.removeEstablishedForBackendConn b) = some (s₁, ops, start)) :
    TokenStep s s₁ (.removeEstablishedForBackendConn b) ops ∧
    ∀ t' ops', start = some (t', ops') → ops'.flatMap Op.tokens = [] := by
  simp only [exec] at hex
  split at hex
  · simp only [Option.some.injEq, Prod.mk.injEq] at hex
    obtain ⟨rfl, rfl, rfl⟩ := hex
    exact ⟨.quiet rfl (fun _ _ hp => hp) fun _ => answers_quiet rfl .., by simp⟩
  · split at hex
    · simp only [Option.some.injEq, Prod.mk.injEq] at hex
      obtain ⟨rfl, rfl, rfl⟩ := hex
      refine ⟨.quiet ?_ (fun _ _ hp => hp) fun k => ?_, by simp⟩
      · rw [List.flatMap_append, List.flatMap_map]
        refine List.append_eq_nil_iff.mpr ⟨?_, List.flatMap_eq_nil_iff.mpr fun _ _ => rfl⟩
        split <;> rfl
      · refine (answers_append_quiet ?_ ..).trans (answers_quiet rfl ..)
        intro e he
        obtain ⟨p, -, rfl⟩ := List.mem_map.mp he
        rfl
    · cases hex

theorem removeEstablishedForStream_tokens {u : StreamUID}
    (hex : exec cfg s t c (.removeEstablishedForStream u) = some (s₁, ops, start)) :
    TokenStep s s₁ (.removeEstablishedForStream u) ops ∧
    ∀ t' ops', start = some (t', ops') → ops'.flatMap Op.tokens = [] := by
  simp only [exec] at hex
  split at hex
  · simp only [Option.some.injEq, Prod.mk.injEq] at hex
    obtain ⟨rfl, rfl, rfl⟩ := hex
    refine ⟨.quiet ?_ (fun _ _ hp => hp) fun k => ?_, by simp⟩
    · rw [List.flatMap_assoc]
      exact List.flatMap_eq_nil_iff.mpr fun _ _ => rfl
    · refine (answers_append_quiet ?_ ..).trans (answers_quiet rfl ..)
      intro e he
      obtain ⟨p, -, rfl⟩ := List.mem_map.mp he
      rfl
  · cases hex

theorem sendFrontend_tokens {f : Option Frontend} {pkt : Packet} {k : AfterFrontend}
    (hop : (Op.sendFrontend f pkt k).Origin cfg s.log t)
    (hex : exec cfg s t c (.sendFrontend f pkt k) = some (s₁, ops, start)) :
    TokenStep s s₁ (.sendFrontend f pkt k) ops ∧
    ∀ t' ops', start = some (t', ops') → ops'.flatMap Op.tokens = [] := by
  obtain ⟨-, f, rfl, -⟩ := hop
  simp only [exec] at hex
  split at hex
  · cases hex
  · next s₂ ok hsend =>
      simp only [Option.some.injEq, Prod.mk.injEq] at hex
      obtain ⟨rfl, rfl, rfl⟩ := hex
      obtain ⟨hpend, -, hlog⟩ := sendFrontend_cases hsend
      have htok := AfterFrontend.next_tokens cfg.agentID k ok
      refine ⟨⟨?_, ?_, fun x q hq => Or.inl (hpend ▸ hq), fun x => ?_⟩, by simp⟩
      · rw [htok]
        exact List.nodup_nil
      · rw [htok]
        simp
      · rcases hlog with hlog | ⟨hlog, -⟩
        · rw [hlog, answers_cons]
          by_cases hx : pkt.answersDial = some x
          · refine Or.inr ⟨by simp [Op.tokens, hx], by rw [htok]; simp, by rw [hpend], ?_⟩
            simp [Event.answered, hx]
          · exact Or.inl (by simp [Event.answered, hx])
        · exact Or.inl (by rw [hlog])

theorem sendBackend_tokens {b : Option BackendId} {pkt : Packet} {k : AfterBackend}
    (hop : (Op.sendBackend b pkt k).Origin cfg s.log t)
    (hex : exec cfg s t c (.sendBackend b pkt k) = some (s₁, ops, start)) :
    TokenStep s s₁ (.sendBackend b pkt k) ops ∧
    ∀ t' ops', start = some (t', ops') → ops'.flatMap Op.tokens = [] := by
  obtain ⟨b, rfl, -⟩ := hop
  simp only [exec] at hex
  split at hex
  · cases hex
  · simp only [Option.some.injEq, Prod.mk.injEq] at hex
    obtain ⟨rfl, rfl, rfl⟩ := hex
    exact ⟨.quiet (AfterBackend.next_tokens ..) (fun _ _ hp => hp)
      fun _ => answers_quiet rfl .., by simp⟩

theorem selectBackend_tokens {f : Frontend} {req : DialRequest} {pkt : Packet}
    (hex : exec cfg s t c (.selectBackend f req pkt) = some (s₁, ops, start)) :
    TokenStep s s₁ (.selectBackend f req pkt) ops ∧
    ∀ t' ops', start = some (t', ops') → ops'.flatMap Op.tokens = [] := by
  simp only [exec] at hex
  split at hex
  · simp only [Option.some.injEq, Prod.mk.injEq] at hex
    obtain ⟨rfl, rfl, rfl⟩ := hex
    refine ⟨⟨List.nodup_singleton _, fun x hx => Or.inl ⟨?_, rfl⟩, fun _ _ hp => Or.inl hp,
      fun _ => Or.inl rfl⟩, by simp⟩
    simpa [Op.tokens, answersDial_failure] using hx
  · split at hex
    · simp only [Option.some.injEq, Prod.mk.injEq] at hex
      obtain ⟨rfl, rfl, rfl⟩ := hex
      refine ⟨⟨List.nodup_singleton _, fun x hx => Or.inl ⟨?_, rfl⟩, fun _ _ hp => Or.inl hp,
        fun _ => Or.inl (answers_quiet rfl ..)⟩, by simp⟩
      simpa [Op.tokens] using hx
    · cases hex

theorem startPendingDialTimeout_tokens {r : DialID} {b : BackendId} {f : Frontend}
    (hex : exec cfg s t c (.startPendingDialTimeout r b f) = some (s₁, ops, start)) :
    TokenStep s s₁ (.startPendingDialTimeout r b f) ops ∧
    ∀ t' ops', start = some (t', ops') → ops'.flatMap Op.tokens = [] := by
  simp only [exec] at hex
  split at hex
  · simp only [Option.some.injEq, Prod.mk.injEq] at hex
    obtain ⟨rfl, rfl, rfl⟩ := hex
    refine ⟨.quiet rfl (fun _ _ hp => hp) fun _ => rfl, fun t' ops' hst => ?_⟩
    injection hst with hst
    injection hst with h1 h2
    rw [← h2]
    rfl
  · simp only [Option.some.injEq, Prod.mk.injEq] at hex
    obtain ⟨rfl, rfl, rfl⟩ := hex
    exact ⟨.quiet rfl (fun _ _ hp => hp) fun _ => rfl, by simp⟩

theorem exec_tokens (h : SharedOrigin cfg s) {op : Op} (hop : op.Origin cfg s.log t)
    (hex : exec cfg s t c op = some (s₁, ops, start)) :
    TokenStep s s₁ op ops ∧ ∀ t' ops', start = some (t', ops') → ops'.flatMap Op.tokens = [] := by
  cases op with
  | pendingAdd r p =>
      simp only [exec, Option.some.injEq, Prod.mk.injEq] at hex
      obtain ⟨rfl, rfl, rfl⟩ := hex
      refine ⟨⟨List.nodup_nil, by simp, fun k q hq => ?_, fun k => Or.inl rfl⟩, by simp⟩
      simp only [ServerState.record_pendingDial, PendingDialManager.add_lookup] at hq
      split at hq
      · next hk => exact Or.inr (by simp [Op.tokens, hk])
      · exact Or.inl hq
  | pendingRemove r k => exact pendingRemove_tokens hop hex
  | pendingRemoveForBackend b => exact pendingRemoveForBackend_tokens h hex
  | pendingRemoveForStream u => exact pendingRemoveForStream_tokens hop hex
  | addEstablished b cid p =>
      simp only [exec, Option.some.injEq, Prod.mk.injEq] at hex
      obtain ⟨rfl, rfl, rfl⟩ := hex
      refine ⟨?_, by simp⟩
      split
      · exact .quiet rfl (fun _ _ hp => hp) fun _ => answers_quiet rfl ..
      · refine .quiet rfl (fun _ _ hp => hp) fun k => ?_
        exact (answers_quiet rfl ..).trans (answers_quiet rfl ..)
  | closeWithBackend f b =>
      simp only [exec] at hex
      repeat' split at hex
      all_goals
        simp only [Option.some.injEq, Prod.mk.injEq] at hex
        obtain ⟨rfl, rfl, rfl⟩ := hex
        exact ⟨.quiet rfl (fun _ _ hp => hp) fun _ => rfl, by simp⟩
  | removeEstablished a cid k => exact removeEstablished_tokens hop hex
  | getFrontend b cid pkt => exact getFrontend_tokens hop hex
  | removeEstablishedForBackendConn b => exact removeEstablishedForBackendConn_tokens hex
  | removeEstablishedForStream u => exact removeEstablishedForStream_tokens hex
  | sendFrontend f pkt k => exact sendFrontend_tokens hop hex
  | sendBackend b pkt k => exact sendBackend_tokens hop hex
  | selectBackend f req pkt => exact selectBackend_tokens hex
  | startPendingDialTimeout r b f => exact startPendingDialTimeout_tokens hex
  | awaitDial r =>
      simp only [exec] at hex
      split at hex
      · simp only [Option.some.injEq, Prod.mk.injEq] at hex
        obtain ⟨rfl, rfl, rfl⟩ := hex
        exact ⟨.quiet (DialCase.next_tokens ..) (fun _ _ hp => hp) fun _ => rfl, by simp⟩
      · cases hex
  | closeMark r =>
      simp only [exec, Option.some.injEq, Prod.mk.injEq] at hex
      obtain ⟨rfl, rfl, rfl⟩ := hex
      refine ⟨.quiet ?_ (fun _ _ hp => hp) fun _ => rfl, by simp⟩
      split <;> rfl
  | queueSend b pkt =>
      simp only [exec, Option.some.injEq, Prod.mk.injEq] at hex
      obtain ⟨rfl, rfl, rfl⟩ := hex
      exact ⟨.quiet rfl (fun _ _ hp => hp) fun _ => answers_quiet rfl .., by simp⟩
  | observeClosed n =>
      simp only [exec, Option.some.injEq, Prod.mk.injEq] at hex
      obtain ⟨rfl, rfl, rfl⟩ := hex
      exact ⟨.quiet rfl (fun _ _ hp => hp) fun _ => answers_quiet rfl .., by simp⟩
  | _ =>
      -- What is left moves a handler, a timer or an in-process connection.
      simp only [exec] at hex
      repeat' split at hex
      all_goals cases hex
      all_goals exact ⟨.quiet rfl (fun _ _ hp => hp) fun _ => rfl, by simp⟩

end Exec

/-! ## What an operation writes to the history -/

/-- The event records something the server did, and not that a dial was given
to a backend. -/
def Event.internal : Event → Bool
  | .fromBackend _ _ => false
  | .fromFrontend _ _ => false
  | .dialing _ _ _ => false
  | _ => true

section Events

variable {cfg : ServerConfig} {s s₁ : ServerState} {t : Tid} {c : Choice} {ops : List Op}
  {start : Option (Tid × List Op)} {op : Op}

/-- The operation adds events of its own; only choosing a backend gives a dial
to one. -/
theorem exec_events (hop : op.Origin cfg s.log t)
    (hex : exec cfg s t c op = some (s₁, ops, start)) :
    ∃ es, s₁.log = es ++ s.log ∧
      ((∀ e ∈ es, e.internal = true) ∨
        ∃ f req pkt b, op = .selectBackend f req pkt ∧ es = [.dialing f b req.random]) := by
  cases op with
  | selectBackend f req pkt =>
      simp only [exec] at hex
      split at hex
      · cases hex
        exact ⟨[], rfl, Or.inl (by simp)⟩
      · next b _ =>
          split at hex <;> cases hex
          exact ⟨[.dialing f b req.random], rfl, Or.inr ⟨f, req, pkt, b, rfl, rfl⟩⟩
  | _ =>
      obtain ⟨es, hlog, hes⟩ := exec_adds hop hex
      refine ⟨es, hlog, Or.inl fun e he => ?_⟩
      have hadd := hes e he
      grind [Op.Adds, Event.internal]

/-- No operation asks the managers for another dial. -/
theorem exec_selecting (hex : exec cfg s t c op = some (s₁, ops, start)) :
    ops.flatMap Op.selecting = [] ∧
      ∀ t' ops', start = some (t', ops') → ops'.flatMap Op.selecting = [] := by
  constructor
  · refine List.flatMap_eq_nil_iff.mpr fun o ho => ?_
    have hinner := exec_inner hex o ho
    cases o with
    | selectBackend f req pkt => cases hinner
    | _ => rfl
  · rintro t' ops' rfl
    rcases exec_start hex with hnone | ⟨r, b, f, hstart⟩
    · cases hnone
    · cases hstart
      rfl

/-- Handing over a packet changes a stream only by answering its dial. -/
theorem sendFrontend_stream {f : Frontend} {pkt : Packet} {ok ok' : Bool}
    (h : s.sendFrontend t f pkt ok = some (s₁, ok')) :
    (∀ u, ((s₁.streams u).http = (s.streams u).http ∧
        (s₁.streams u).opened = (s.streams u).opened ∧
        (s₁.streams u).loop = (s.streams u).loop) ∧
      ((s₁.streams u).connected = true → (s.streams u).connected = true ∨
        (f = proxyFrontend u ∧ pkt.answersDial.isSome ∧
          s₁.log = .toFrontend t f pkt ok' :: s.log))) ∧
    (s₁.panic ≠ s.panic → ∃ u, f = proxyFrontend u ∧ pkt.answersDial.isSome ∧
      (s.streams u).http.isSome ∧ (s.streams u).connected = true) := by
  simp only [ServerState.sendFrontend] at h
  split at h
  · cases h
    exact ⟨fun u => ⟨⟨rfl, rfl, rfl⟩, Or.inl⟩, fun hne => absurd rfl hne⟩
  · next hf =>
      have hfu : f = proxyFrontend f.streamUID := by
        cases f
        simp only at hf
        rw [hf]
        rfl
      split at h
      · cases h
      · split at h
        · next reason hst =>
            cases h
            refine ⟨fun u => ⟨⟨rfl, rfl, rfl⟩, Or.inl⟩, fun hne => ⟨f.streamUID, hfu, ?_⟩⟩
            simp only [StreamState.send] at hst
            split at hst
            · next resp hhttp htype hresp =>
                rw [Packet.getDialResponse_iff] at hresp
                repeat' split at hst
                all_goals cases hst
                next hconn =>
                  exact ⟨by simp [Packet.answersDial, htype, hresp], by simp [hhttp], hconn⟩
            · cases hst
        · next st hst =>
            cases h
            refine ⟨fun u => ?_, fun hne => absurd rfl hne⟩
            by_cases hu : u = f.streamUID
            · subst hu
              simp only [ServerState.record, ServerState.setStream, Function.update_self]
              simp only [StreamState.send] at hst
              split at hst
              · next resp hhttp htype hresp =>
                  rw [Packet.getDialResponse_iff] at hresp
                  have hans : pkt.answersDial.isSome := by
                    simp [Packet.answersDial, htype, hresp]
                  repeat' split at hst
                  all_goals cases hst
                  all_goals first
                    | exact ⟨⟨rfl, rfl, rfl⟩, Or.inl⟩
                    | exact ⟨⟨rfl, rfl, rfl⟩, fun _ => Or.inr ⟨hfu, hans, trivial⟩⟩
              · cases hst
                exact ⟨⟨rfl, rfl, rfl⟩, Or.inl⟩
            · simp only [ServerState.record, ServerState.setStream, Function.update_of_ne hu]
              exact ⟨⟨trivial, trivial, trivial⟩, Or.inl⟩

/-- Dials are the same as before, but for the one that found its backend. -/
theorem dialing_exec {f : Frontend} {b : BackendId} {r : DialID}
    (hop : op.Origin cfg s.log t) (hex : exec cfg s t c op = some (s₁, ops, start))
    (hd : .dialing f b r ∈ s₁.log) :
    .dialing f b r ∈ s.log ∨
      ∃ pkt req, op = .selectBackend f req pkt ∧ r = req.random ∧
        s₁.log = .dialing f b r :: s.log := by
  obtain ⟨es, hlog, hes⟩ := exec_events hop hex
  rw [hlog] at hd
  rcases List.mem_append.mp hd with hd | hd
  · rcases hes with hes | ⟨f', req, pkt, b', hopeq, hes⟩
    · exact absurd (hes _ hd) (by simp [Event.internal])
    · rw [hes, List.mem_singleton] at hd
      injection hd with h1 h2 h3
      subst h1 h2 h3
      exact Or.inr ⟨pkt, req, hopeq, rfl, by rw [hlog, hes]; rfl⟩
  · exact Or.inl hd

/-- The dials of a frontend after an operation are its dials before. -/
theorem exec_hasDial {f : Frontend} {r : DialID} (hop : op.Origin cfg s.log t)
    (hex : exec cfg s t c op = some (s₁, ops, start)) (hd : HasDial s₁.log f r) :
    HasDial s.log f r := by
  rcases hd with ⟨pkt, hp, hr⟩ | ⟨b, hd⟩
  · obtain ⟨es, hlog, hes⟩ := exec_events hop hex
    rw [hlog] at hp
    rcases List.mem_append.mp hp with hp | hp
    · rcases hes with hes | ⟨f', req, pkt', b', -, hes⟩
      · exact absurd (hes _ hp) (by simp [Event.internal])
      · rw [hes, List.mem_singleton] at hp
        cases hp
    · exact Or.inl ⟨pkt, hp, hr⟩
  · rcases dialing_exec hop hex hd with hd | ⟨pkt, req, rfl, rfl, -⟩
    · exact Or.inr ⟨b, hd⟩
    · exact Or.inl ⟨pkt, hop.2.2.1, hop.2.2.2⟩

end Events

/-! ## What arrives -/

/-- The dial that begins with an action. -/
def ServerAction.dials : ServerAction → Option DialID
  | .receive _ pkt => pkt.requestsDial
  | .dial _ random _ _ _ => some random
  | _ => none

/-- The frontend that dials. -/
def ServerAction.dialer : ServerAction → Option Frontend
  | .receive u _ => some (proxyFrontend u)
  | .dial u random _ _ _ => some ⟨u, .serverConn random⟩
  | _ => none

/-- Dial IDs are drawn at random; no ID is used twice. -/
def DistinctDials (s : ServerState) (a : ServerAction) : Prop :=
  ∀ r, a.dials = some r → ∀ f, ¬ HasDial s.log f r

/-- The dial an event begins. -/
def Event.begins : Event → Option DialID
  | .fromFrontend _ pkt => pkt.requestsDial
  | .dialing _ _ r => some r
  | _ => none

theorem hasDial_iff_begins {log : List Event} {r : DialID} :
    (∃ f, HasDial log f r) ↔ ∃ e ∈ log, e.begins = some r := by
  constructor
  · rintro ⟨f, ⟨pkt, hp, hr⟩ | ⟨b, hd⟩⟩
    · exact ⟨_, hp, hr⟩
    · exact ⟨_, hd, rfl⟩
  · rintro ⟨e, he, hr⟩
    cases e with
    | fromFrontend f pkt => exact ⟨f, Or.inl ⟨pkt, he, hr⟩⟩
    | dialing f b r' =>
        cases hr
        exact ⟨f, Or.inr ⟨b, he⟩⟩
    | _ => cases hr

instance DistinctDials.decidable (s : ServerState) (a : ServerAction) :
    Decidable (DistinctDials s a) :=
  match hr : a.dials with
  | none => isTrue fun r hr' => by rw [hr] at hr'; cases hr'
  | some r =>
      decidable_of_iff ((s.log.any fun e => e.begins == some r) = false)
        ⟨fun h r' hr' f hd => by
            rw [hr] at hr'
            cases hr'
            obtain ⟨e, he, hb⟩ := hasDial_iff_begins.mp ⟨f, hd⟩
            exact absurd (beq_iff_eq.mpr hb) (List.any_eq_false.mp h e he),
          fun h => List.any_eq_false.mpr fun e he hb => by
            obtain ⟨f, hd⟩ := hasDial_iff_begins.mpr ⟨e, he, beq_iff_eq.mp hb⟩
            exact h r hr f hd⟩

/-- What an arrival does to the tokens and to the dials. -/
structure ArriveStep (s s₁ : ServerState) (a : ServerAction)
    (start : Option (Tid × List Op)) : Prop where
  pending : s₁.pendingDial = s.pendingDial
  established : s₁.established = s.established
  answers : ∀ k, answers s₁.log k = answers s.log k
  tokens : ∀ t ops, start = some (t, ops) →
    ops.flatMap Op.tokens = [] ∨ ∃ r, a.dials = some r ∧ ops.flatMap Op.tokens = [r]
  selecting : ∀ t ops, start = some (t, ops) → ∀ r ∈ ops.flatMap Op.selecting,
    a.dials = some r ∧ ∀ f b x, .dialing f b x ∈ s₁.log → .dialing f b x ∈ s.log
  requested : ∀ f pkt, .fromFrontend f pkt ∈ s₁.log → .fromFrontend f pkt ∈ s.log ∨
    (a.dialer = some f ∧ pkt.requestsDial = a.dials)
  dialing : ∀ f b r, .dialing f b r ∈ s₁.log → .dialing f b r ∈ s.log ∨
    (a.dialer = some f ∧ a.dials = some r ∧ ∃ u n h, a = .dial u r b n h)

/-- The dials of a frontend after an arrival. -/
theorem ArriveStep.hasDial {s s₁ : ServerState} {a : ServerAction}
    {start : Option (Tid × List Op)} (h : ArriveStep s s₁ a start) {f : Frontend} {r : DialID}
    (hd : HasDial s₁.log f r) :
    HasDial s.log f r ∨ (a.dialer = some f ∧ a.dials = some r) := by
  rcases hd with ⟨pkt, hp, hr⟩ | ⟨b, hd⟩
  · rcases h.requested f pkt hp with hp | ⟨h1, h2⟩
    · exact Or.inl (Or.inl ⟨pkt, hp, hr⟩)
    · exact Or.inr ⟨h1, h2 ▸ hr⟩
  · rcases h.dialing f b r hd with hd | ⟨h1, h2, -⟩
    · exact Or.inl (Or.inr ⟨b, hd⟩)
    · exact Or.inr ⟨h1, h2⟩

theorem serveRecvFrontend_tokens {f : Frontend} {st st' : StreamState} {pkt : Packet}
    {ops : List Op} (h : serveRecvFrontend f st pkt = some (st', ops)) :
    (ops.flatMap Op.tokens = [] ∨
      ∃ r, pkt.requestsDial = some r ∧ ops.flatMap Op.tokens = [r]) ∧
    ∀ r ∈ ops.flatMap Op.selecting, pkt.requestsDial = some r := by
  simp only [serveRecvFrontend] at h
  split at h
  · next htype =>
      obtain ⟨req, hreq, heq⟩ := Option.map_eq_some_iff.mp h
      rw [Packet.getDialRequest_iff] at hreq
      injection heq with h1 h2
      subst h2
      have hdial : pkt.requestsDial = some req.random := by
        simp [Packet.requestsDial, htype, hreq]
      refine ⟨Or.inr ⟨req.random, hdial, rfl⟩, fun r hr => ?_⟩
      have hr' : r = req.random := by simpa [Op.selecting] using hr
      rw [hr']
      exact hdial
  · obtain ⟨req, hreq, heq⟩ := Option.map_eq_some_iff.mp h
    split at heq <;> cases heq <;> exact ⟨Or.inl rfl, fun r hr => by cases hr⟩
  · obtain ⟨req, hreq, heq⟩ := Option.map_eq_some_iff.mp h
    cases heq
    exact ⟨Or.inl rfl, fun r hr => by cases hr⟩
  · obtain ⟨req, hreq, heq⟩ := Option.map_eq_some_iff.mp h
    repeat' split at heq
    all_goals cases heq
    all_goals exact ⟨Or.inl rfl, fun r hr => by cases hr⟩
  · cases h
    exact ⟨Or.inl rfl, fun r hr => by cases hr⟩

theorem serveRecvBackend_tokens {cfg : ServerConfig} {b : BackendId} {pkt : Packet}
    {ops : List Op} (h : serveRecvBackend cfg b pkt = some ops) :
    ops.flatMap Op.tokens = [] ∧ ops.flatMap Op.selecting = [] := by
  simp only [serveRecvBackend] at h
  split at h
  · obtain ⟨resp, -, rfl⟩ := Option.map_eq_some_iff.mp h
    exact ⟨rfl, rfl⟩
  · obtain ⟨resp, -, rfl⟩ := Option.map_eq_some_iff.mp h
    exact ⟨rfl, rfl⟩
  · obtain ⟨resp, -, rfl⟩ := Option.map_eq_some_iff.mp h
    split <;> exact ⟨rfl, rfl⟩
  · obtain ⟨resp, -, rfl⟩ := Option.map_eq_some_iff.mp h
    exact ⟨rfl, rfl⟩
  · cases h
    exact ⟨rfl, rfl⟩
  · cases h
    exact ⟨rfl, rfl⟩

section Arrive

variable {cfg : ServerConfig} {s s₁ : ServerState} {start : Option (Tid × List Op)}
  {a : ServerAction}

/-- An arrival that neither dials nor is a packet of a frontend. -/
theorem ArriveStep.quiet (hpending : s₁.pendingDial = s.pendingDial)
    (hest : s₁.established = s.established)
    (hlog : s₁.log = s.log ∨ ∃ e, s₁.log = e :: s.log ∧ e.answered = none ∧
      (∀ f pkt, e ≠ .fromFrontend f pkt) ∧ ∀ f b r, e ≠ .dialing f b r)
    (hops : ∀ t ops, start = some (t, ops) →
      ops.flatMap Op.tokens = [] ∧ ops.flatMap Op.selecting = []) :
    ArriveStep s s₁ a start where
  pending := hpending
  established := hest
  answers k := by
    rcases hlog with hlog | ⟨e, hlog, he, -⟩
    · rw [hlog]
    · rw [hlog]
      exact answers_quiet he ..
  tokens t ops hst := Or.inl (hops t ops hst).1
  selecting t ops hst r hr := by
    rw [(hops t ops hst).2] at hr
    cases hr
  requested f pkt hf := by
    rcases hlog with hlog | ⟨e, hlog, -, he, -⟩
    · exact Or.inl (hlog ▸ hf)
    · rw [hlog] at hf
      exact Or.inl ((List.mem_cons.mp hf).resolve_left fun h => he f pkt h.symm)
  dialing f b r hd := by
    rcases hlog with hlog | ⟨e, hlog, -, -, he⟩
    · exact Or.inl (hlog ▸ hd)
    · rw [hlog] at hd
      exact Or.inl ((List.mem_cons.mp hd).resolve_left fun h => he f b r h.symm)

theorem arrive_tokens (harr : arrive cfg s a = some (s₁, start)) : ArriveStep s s₁ a start := by
  cases a with
  | deliver b pkt =>
      simp only [arrive] at harr
      split at harr
      · split at harr
        · cases harr
          refine .quiet rfl rfl (Or.inr ⟨_, rfl, rfl, by simp, by simp⟩) fun t ops hst => ?_
          cases hst
          exact ⟨rfl, rfl⟩
        · next ops hops =>
            cases harr
            refine .quiet rfl rfl (Or.inr ⟨_, rfl, rfl, by simp, by simp⟩) fun t ops' hst => ?_
            cases hst
            exact serveRecvBackend_tokens hops
      · cases harr
  | receive u pkt =>
      have hreq : ∀ f p, .fromFrontend f p ∈ Event.fromFrontend (proxyFrontend u) pkt :: s.log →
          .fromFrontend f p ∈ s.log ∨
            (some (proxyFrontend u) = some f ∧ p.requestsDial = pkt.requestsDial) := by
        intro f p hp
        rcases List.mem_cons.mp hp with heq | hp
        · injection heq with h1 h2
          exact Or.inr ⟨by rw [h1], by rw [h2]⟩
        · exact Or.inl hp
      have hdialing : ∀ f b r,
          .dialing f b r ∈ Event.fromFrontend (proxyFrontend u) pkt :: s.log →
            .dialing f b r ∈ s.log :=
        fun f b r hd => (List.mem_cons.mp hd).resolve_left (by simp)
      simp only [arrive] at harr
      split at harr
      · split at harr
        · cases harr
        · split at harr
          · cases harr
            refine ⟨rfl, rfl, fun k => answers_quiet rfl .., fun t ops hst => ?_,
              fun t ops hst => ?_, hreq, fun f b r hd => Or.inl (hdialing f b r hd)⟩
            · cases hst
              exact Or.inl rfl
            · cases hst
              exact fun r hr => by cases hr
          · next st' ops hops =>
              cases harr
              obtain ⟨htok, hsel⟩ := serveRecvFrontend_tokens hops
              refine ⟨rfl, rfl, fun k => answers_quiet rfl .., fun t ops' hst => ?_,
                fun t ops' hst r hr => ?_, hreq, fun f b r hd => Or.inl (hdialing f b r hd)⟩
              · cases hst
                exact htok
              · cases hst
                exact ⟨hsel r hr, hdialing⟩
      · cases harr
  | dial u r b network address =>
      simp only [arrive] at harr
      split at harr
      · cases harr
        refine ⟨rfl, rfl, fun k => answers_quiet rfl .., fun t ops hst => ?_,
          fun t ops hst x hx => ?_, fun f pkt hf => ?_, fun f b' x hd => ?_⟩
        · cases hst
          exact Or.inr ⟨r, rfl, rfl⟩
        · cases hst
          cases hx
        · exact Or.inl ((List.mem_cons.mp hf).resolve_left (by simp))
        · rcases List.mem_cons.mp hd with heq | hd
          · injection heq with h1 h2 h3
            subst h1 h2 h3
            exact Or.inr ⟨rfl, rfl, u, network, address, rfl⟩
          · exact Or.inl hd
      · cases harr
  | drained b =>
      simp only [arrive] at harr
      split at harr
      · cases harr
        refine .quiet rfl rfl (Or.inl rfl) fun t ops hst => ?_
        cases hst
        exact ⟨rfl, rfl⟩
      · cases harr
  | shutdown u =>
      simp only [arrive] at harr
      split at harr
      · cases harr
        refine .quiet rfl rfl (Or.inr ⟨_, rfl, rfl, by simp, by simp⟩) fun t ops hst => ?_
        cases hst
        exact ⟨rfl, rfl⟩
      · cases harr
  | userClose r =>
      simp only [arrive] at harr
      split at harr
      · cases harr
        refine .quiet rfl rfl (Or.inl rfl) fun t ops hst => ?_
        cases hst
        exact ⟨rfl, rfl⟩
      · cases harr
  | watchClose r =>
      simp only [arrive] at harr
      split at harr
      · cases harr
      · split at harr
        · cases harr
          refine .quiet rfl rfl (Or.inl rfl) fun t ops hst => ?_
          cases hst
          exact ⟨rfl, rfl⟩
        · cases harr
  | _ =>
      simp only [arrive] at harr
      split at harr <;> cases harr
      exact .quiet rfl rfl (Or.inl rfl) fun t ops hst => by cases hst

end Arrive

/-! ## The invariant -/

structure CustodyInv (s : System.State ServerState Tid Op) : Prop where
  exclusive : Pool.Exclusive Op.tokens s.threads
  held : ∀ r, Pool.Held Op.tokens s.threads r →
    s.shared.pendingDial.pendingDial.lookup r = none ∧ answers s.shared.log r = 0
  pending : ∀ r p, s.shared.pendingDial.pendingDial.lookup r = some p →
    answers s.shared.log r = 0
  once : ∀ r, answers s.shared.log r ≤ 1
  answered : ∀ r, 0 < answers s.shared.log r → ∃ f, HasDial s.shared.log f r
  frontend : ∀ f f' r, HasDial s.shared.log f r → HasDial s.shared.log f' r → f = f'
  selecting : ∀ r, Pool.Held Op.selecting s.threads r → ∀ f b, .dialing f b r ∉ s.shared.log
  backend : ∀ f f' b b' r, .dialing f b r ∈ s.shared.log → .dialing f' b' r ∈ s.shared.log →
    b = b'

section Steps

variable {cfg : ServerConfig} {s : System.State ServerState Tid Op} {s₁ : ServerState}
  {t : Tid} {c : Choice} {op : Op} {ops rest : List Op} {start : Option (Tid × List Op)}

theorem Op.Origin.tokens_hasDial {log : List Event} (h : op.Origin cfg log t) {r : DialID}
    (hr : r ∈ op.tokens) : ∃ f, HasDial log f r := by
  cases op with
  | pendingAdd r' p =>
      have hrr : r = r' := by simpa [Op.tokens] using hr
      obtain ⟨f, -, hd⟩ := h.2.1.hasDial
      exact ⟨f, by rw [hrr, ← h.1]; exact hd⟩
  | selectBackend f req pkt =>
      have hrr : r = req.random := by simpa [Op.tokens] using hr
      exact ⟨f, Or.inl ⟨pkt, h.2.2.1, by rw [hrr]; exact h.2.2.2⟩⟩
  | sendFrontend f pkt k =>
      obtain ⟨-, f', -, hans⟩ := h
      exact ⟨f', hans r (by simpa [Op.tokens] using hr)⟩
  | _ => cases hr

theorem held_hasDial (h : Pool.All (fun t o => o.Origin cfg s.shared.log t) s.threads)
    {r : DialID} (hr : Pool.Held Op.tokens s.threads r) : ∃ f, HasDial s.shared.log f r := by
  obtain ⟨t, o, ho, hr⟩ := hr
  exact (h t o ho).tokens_hasDial hr

theorem selecting_tokens (op : Op) : ∀ r ∈ op.selecting, r ∈ op.tokens := by
  cases op <;> simp [Op.selecting, Op.tokens]

/-- The dial that found its backend is not looked for a second time: its token
would be carried twice. -/
theorem CustodyInv.selected_once (h : CustodyInv s) (ht : s.threads t = op :: rest)
    (hsel : ops.flatMap Op.selecting = []) {r : DialID} (hr : r ∈ op.selecting) :
    ¬ Pool.Held Op.selecting (Function.update s.threads t (ops ++ rest)) r := by
  rintro ⟨x, o, ho, hx⟩
  have hko := selecting_tokens op r hr
  by_cases hxt : x = t
  · subst hxt
    rw [Function.update_self] at ho
    rcases List.mem_append.mp ho with ho | ho
    · have : r ∈ ops.flatMap Op.selecting := List.mem_flatMap.mpr ⟨o, ho, hx⟩
      rw [hsel] at this
      cases this
    · have hnd := h.exclusive.nodup x
      rw [ht, List.flatMap_cons, List.nodup_append'] at hnd
      exact hnd.2.2 hko (List.mem_flatMap.mpr ⟨o, ho, selecting_tokens o r hx⟩)
  · rw [Function.update_of_ne hxt] at ho
    refine h.exclusive.disjoint x t hxt
      (List.mem_flatMap.mpr ⟨o, ho, selecting_tokens o r hx⟩) ?_
    rw [ht, List.flatMap_cons]
    exact List.mem_append_left _ hko

theorem CustodyInv.exec (h : CustodyInv s) (hG : SharedOrigin cfg s.shared)
    (hP : Pool.All (fun t o => o.Origin cfg s.shared.log t) s.threads)
    (ht : s.threads t = op :: rest)
    (hex : exec cfg s.shared t c op = some (s₁, ops, start)) :
    CustodyInv ⟨s₁, Function.update s.threads t (ops ++ rest)⟩ := by
  have hop := hP t op (by rw [ht]; exact List.mem_cons_self)
  obtain ⟨htok, -⟩ := exec_tokens hG hop hex
  obtain ⟨hsel, -⟩ := exec_selecting hex
  have hheld : ∀ k ∈ op.tokens, Pool.Held Op.tokens s.threads k := fun k hk =>
    ⟨t, op, by rw [ht]; exact List.mem_cons_self, hk⟩
  have hsub : s.shared.log ⊆ s₁.log := by
    obtain ⟨es, hlog, -⟩ := exec_events hop hex
    rw [hlog]
    exact List.subset_append_right _ _
  have hanswers : ∀ k, (Pool.Held Op.tokens s.threads k → k ∉ op.tokens →
      answers s₁.log k = answers s.shared.log k) := by
    intro k _ hk
    rcases htok.answers k with heq | ⟨hk', -⟩
    · exact heq
    · exact absurd hk' hk
  refine ⟨?_, ?_, ?_, ?_, ?_, ?_, ?_, ?_⟩
  · refine h.exclusive.push ht htok.nodup fun k hk => ?_
    rcases htok.source k hk with ⟨hk, -⟩ | ⟨⟨p, hp⟩, -⟩
    · exact Or.inl hk
    · refine Or.inr fun hh => ?_
      rw [(h.held k hh).1] at hp
      cases hp
  · intro k hk
    dsimp only at hk ⊢
    by_cases hknew : k ∈ ops.flatMap Op.tokens
    · have hzero : answers s₁.log k = answers s.shared.log k := by
        rcases htok.answers k with heq | ⟨-, hn, -⟩
        · exact heq
        · exact absurd hknew hn
      rcases htok.source k hknew with ⟨hko, hsame⟩ | ⟨⟨p, hp⟩, hnone⟩
      · obtain ⟨h1, h2⟩ := h.held k (hheld k hko)
        exact ⟨by rw [hsame, h1], by rw [hzero, h2]⟩
      · exact ⟨hnone, by rw [hzero]; exact h.pending k p hp⟩
    · have hko : k ∉ op.tokens := fun hko => h.exclusive.released ht hko hknew hk
      have hh := (Pool.Held.of_push ht hk).resolve_left hknew
      obtain ⟨h1, h2⟩ := h.held k hh
      refine ⟨?_, by rw [hanswers k hh hko, h2]⟩
      cases hp : s₁.pendingDial.pendingDial.lookup k with
      | none => rfl
      | some p =>
          rcases htok.pending k p hp with hp | hp
          · rw [h1] at hp
            cases hp
          · exact absurd hp hko
  · intro k p hp
    dsimp only at hp ⊢
    have hzero : answers s.shared.log k = 0 := by
      rcases htok.pending k p hp with hp | hko
      · exact h.pending k p hp
      · exact (h.held k (hheld k hko)).2
    rcases htok.answers k with heq | ⟨hko, -, hsame, -⟩
    · rw [heq, hzero]
    · rw [hsame, (h.held k (hheld k hko)).1] at hp
      cases hp
  · intro k
    rcases htok.answers k with heq | ⟨hko, -, -, hinc⟩
    · exact heq ▸ h.once k
    · have := (h.held k (hheld k hko)).2
      dsimp only
      omega
  · intro k hk
    dsimp only at hk ⊢
    rcases htok.answers k with heq | ⟨hko, -⟩
    · obtain ⟨f, hf⟩ := h.answered k (heq ▸ hk)
      exact ⟨f, hf.mono hsub⟩
    · obtain ⟨f, hf⟩ := hop.tokens_hasDial hko
      exact ⟨f, hf.mono hsub⟩
  · intro f f' r hf hf'
    exact h.frontend f f' r (exec_hasDial hop hex hf) (exec_hasDial hop hex hf')
  · intro r hr f b hd
    dsimp only at hr hd
    have hr' := (Pool.Held.of_push ht hr).resolve_left (by rw [hsel]; exact List.not_mem_nil)
    rcases dialing_exec hop hex hd with hd | ⟨pkt, req, hopeq, rfl, -⟩
    · exact h.selecting r hr' f b hd
    · refine h.selected_once ht hsel ?_ hr
      rw [hopeq]
      exact List.mem_singleton.mpr rfl
  · intro f f' b b' r hd hd'
    dsimp only at hd hd'
    have hown : ∀ {f : Frontend} {pkt : Packet} {req : DialRequest},
        op = .selectBackend f req pkt → ∀ f' b', .dialing f' b' req.random ∉ s.shared.log := by
      intro f pkt req hopeq f' b'
      refine h.selecting req.random ⟨t, op, by rw [ht]; exact List.mem_cons_self, ?_⟩ f' b'
      rw [hopeq]
      exact List.mem_singleton.mpr rfl
    rcases dialing_exec hop hex hd with hd | ⟨pkt, req, hopeq, hr, hes1⟩
    · rcases dialing_exec hop hex hd' with hd' | ⟨pkt', req', hopeq', hr', -⟩
      · exact h.backend f f' b b' r hd hd'
      · exact absurd (hr' ▸ hd) (hown hopeq' f b)
    · rcases dialing_exec hop hex hd' with hd' | ⟨pkt', req', hopeq', hr', hes2⟩
      · exact absurd (hr ▸ hd') (hown hopeq f' b')
      · rw [hes1] at hes2
        injection hes2 with hes2
        injection hes2

theorem CustodyInv.spawn (h : CustodyInv s) {t' : Tid} {ops' : List Op}
    (htok : ops'.flatMap Op.tokens = []) (hsel : ops'.flatMap Op.selecting = []) :
    CustodyInv ⟨s.shared, Function.update s.threads t' (s.threads t' ++ ops')⟩ :=
  { h with
    exclusive := h.exclusive.spawn htok
    held := fun r hr => h.held r (hr.of_spawn htok)
    selecting := fun r hr => h.selecting r (hr.of_spawn hsel) }

theorem CustodyInv.arrive (h : CustodyInv s) (hG : SharedOrigin cfg s.shared)
    (hP : Pool.All (fun t o => o.Origin cfg s.shared.log t) s.threads) {a : ServerAction}
    (hok : DistinctDials s.shared a) (hsub : s.shared.log ⊆ s₁.log)
    (hstep : ArriveStep s.shared s₁ a start) {threads : Tid → List Op}
    (hthreads : threads = s.threads ∨ ∃ t ops, start = some (t, ops) ∧ s.threads t = [] ∧
      threads = Function.update s.threads t ops) : CustodyInv ⟨s₁, threads⟩ := by
  have hsplit : ∀ f r, HasDial s₁.log f r → HasDial s.shared.log f r ∨
      (a.dialer = some f ∧ a.dials = some r) := fun f r => hstep.hasDial
  -- A dial that arrives has no token anywhere yet.
  have hheld : ∀ r, a.dials = some r → ¬ Pool.Held Op.tokens s.threads r := by
    intro r hr hh
    obtain ⟨f, hf⟩ := held_hasDial hP hh
    exact hok r hr f hf
  have hpending : ∀ r, a.dials = some r → s.shared.pendingDial.pendingDial.lookup r = none := by
    intro r hr
    cases hp : s.shared.pendingDial.pendingDial.lookup r with
    | none => rfl
    | some p =>
        obtain ⟨hid, f, b, -, -, hd⟩ := hG.pending r p hp
        exact absurd (Or.inr ⟨b, hid ▸ hd⟩) (hok r hr f)
  have hanswers : ∀ r, a.dials = some r → answers s.shared.log r = 0 := by
    intro r hr
    refine Nat.eq_zero_of_not_pos fun hpos => ?_
    obtain ⟨f, hf⟩ := h.answered r hpos
    exact hok r hr f hf
  have hsource : ∀ k, Pool.Held Op.tokens threads k →
      a.dials = some k ∨ Pool.Held Op.tokens s.threads k := by
    intro k hk
    rcases hthreads with rfl | ⟨t, ops, hst, -, rfl⟩
    · exact Or.inr hk
    · rcases hk.of_start with hk | hk
      · rcases hstep.tokens t ops hst with hnil | ⟨r, hr, hone⟩
        · rw [hnil] at hk
          cases hk
        · rw [hone, List.mem_singleton] at hk
          exact Or.inl (hk ▸ hr)
      · exact Or.inr hk
  refine ⟨?_, ?_, ?_, ?_, ?_, ?_, ?_, ?_⟩
  · rcases hthreads with rfl | ⟨t, ops, hst, ht, rfl⟩
    · exact h.exclusive
    · refine h.exclusive.start ht ?_ fun k hk => ?_
      · rcases hstep.tokens t ops hst with hnil | ⟨r, -, hone⟩
        · rw [hnil]
          exact List.nodup_nil
        · rw [hone]
          exact List.nodup_singleton r
      · rcases hstep.tokens t ops hst with hnil | ⟨r, hr, hone⟩
        · rw [hnil] at hk
          cases hk
        · rw [hone, List.mem_singleton] at hk
          exact hheld k (hk ▸ hr)
  · intro k hk
    dsimp only
    rw [hstep.pending, hstep.answers]
    rcases hsource k hk with hr | hk
    · exact ⟨hpending k hr, hanswers k hr⟩
    · exact h.held k hk
  · intro k p hp
    dsimp only at hp ⊢
    rw [hstep.answers]
    exact h.pending k p (by rw [← hstep.pending]; exact hp)
  · intro k
    dsimp only
    rw [hstep.answers]
    exact h.once k
  · intro k hk
    dsimp only at hk ⊢
    rw [hstep.answers] at hk
    obtain ⟨f, hf⟩ := h.answered k hk
    exact ⟨f, hf.mono hsub⟩
  · intro f f' r hf hf'
    rcases hsplit f r hf with hf | ⟨hd, hr⟩
    · rcases hsplit f' r hf' with hf' | ⟨-, hr'⟩
      · exact h.frontend f f' r hf hf'
      · exact absurd hf (hok r hr' f)
    · rcases hsplit f' r hf' with hf' | ⟨hd', -⟩
      · exact absurd hf' (hok r hr f')
      · rw [hd] at hd'
        injection hd'
  · intro r hr f b hd
    dsimp only at hr hd
    rcases hthreads with rfl | ⟨t, ops, hst, -, rfl⟩
    · rcases hstep.dialing f b r hd with hd | ⟨-, hr', -⟩
      · exact h.selecting r hr f b hd
      · obtain ⟨x, o, ho, hx⟩ := hr
        exact hheld r hr' ⟨x, o, ho, selecting_tokens o r hx⟩
    · rcases hr.of_start with hr | hr
      · obtain ⟨hr', hsame⟩ := hstep.selecting t ops hst r hr
        exact hok r hr' f (Or.inr ⟨b, hsame f b r hd⟩)
      · rcases hstep.dialing f b r hd with hd | ⟨-, hr', -⟩
        · exact h.selecting r hr f b hd
        · obtain ⟨x, o, ho, hx⟩ := hr
          exact hheld r hr' ⟨x, o, ho, selecting_tokens o r hx⟩
  · intro f f' b b' r hd hd'
    rcases hstep.dialing f b r hd with hd | ⟨-, hr, u, n, addr, ha⟩
    · rcases hstep.dialing f' b' r hd' with hd' | ⟨-, hr', -⟩
      · exact h.backend f f' b b' r hd hd'
      · exact absurd (Or.inr ⟨b, hd⟩) (hok r hr' f)
    · rcases hstep.dialing f' b' r hd' with hd' | ⟨-, -, u', n', addr', ha'⟩
      · exact absurd (Or.inr ⟨b', hd'⟩) (hok r hr f')
      · rw [ha] at ha'
        injection ha'

end Steps

end Konnectivity
