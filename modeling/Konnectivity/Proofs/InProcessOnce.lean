import Konnectivity.Proofs.InProcess

/-!
# Connections that `dialBackend` returns

The dispatcher enters a connection before it hands the `DIAL_RSP` over, and
`dialBackend` returns it after that. A dial is answered once, so it is entered
once; the account of `established` then says that the connection stands in the
table or was taken out by one removal, and the order of the history that this
removal came later.
-/

namespace Konnectivity

open Lib

/-! ## Who hands a connection over -/

/-- The dispatcher of the backend has entered the connection. -/
def EnteredBy (cfg : ServerConfig) (log : List Event) (b : BackendId) (r : DialID)
    (c : ConnectID) : Prop :=
  ∃ p, .entered (.dispatcher b) (cfg.agentID b) c p ∈ log ∧ p.dialID = r

theorem EnteredBy.mono {cfg : ServerConfig} {log log' : List Event} (hsub : log ⊆ log')
    {b : BackendId} {r : DialID} {c : ConnectID} (h : EnteredBy cfg log b r c) :
    EnteredBy cfg log' b r c := by
  obtain ⟨p, hp, hid⟩ := h
  exact ⟨p, hsub hp, hid⟩

/-- What is returned was handed over, and what is handed over was entered. -/
structure EnterInv (cfg : ServerConfig) (s : System.State ServerState Tid Op) : Prop where
  -- An in-process dial learns of its connection from the operation that may take it back.
  reports : ∀ t f pkt, .sendFrontend (some f) pkt .done ∈ s.threads t →
    f.stream = .proxy ∨ pkt.reportsConn = none
  handing : ∀ b f pkt resp, .sendFrontend f pkt (.dialRsp b resp) ∈ s.threads (.dispatcher b) →
    (∃ p, .addEstablished b resp.connectID p ∈ s.threads (.dispatcher b) ∧
      p.dialID = resp.random) ∨ EnteredBy cfg s.shared.log b resp.random resp.connectID
  connected : ∀ r, (s.shared.conns r).connected = true → 0 < answers s.shared.log r ∧
    ∃ b, EnteredBy cfg s.shared.log b r (s.shared.conns r).connID
  -- What the dispatcher takes back was refused.
  undone : ∀ t a cid b r, .removeEstablished a cid (.undo b r) ∈ s.threads t →
    0 < answers s.shared.log r ∧ (s.shared.conns r).connected = false
  returning : ∀ r, .dialReturn r true ∈ s.threads (.dialer r) →
    (s.shared.conns r).connected = true
  result : ∀ r, (s.shared.conns r).result = some true → (s.shared.conns r).connected = true

section Enter

variable {cfg : ServerConfig} {s : System.State ServerState Tid Op} {s₁ : ServerState} {t : Tid}
  {c : Choice} {op : Op} {ops rest : List Op} {start : Option (Tid × List Op)}

theorem exec_reports {s : ServerState} (hop : op.Origin cfg s.log t)
    (hex : exec cfg s t c op = some (s₁, ops, start)) {f : Frontend} {pkt : Packet}
    (h : .sendFrontend (some f) pkt .done ∈ ops) : f.stream = .proxy ∨ pkt.reportsConn = none := by
  rcases exec_sends hop hex h with ⟨r, -, hproxy⟩ | ⟨b, cid, p, rfl, -⟩ | ⟨a, cid, p, rfl, -⟩ |
    ⟨b, cid, p, rfl, -, -, -, rfl⟩ | ⟨b, pkt', f', cid, rfl, hf⟩
  · rcases hproxy rfl with hnone | ⟨f', hf, hstream⟩
    · exact Or.inr hnone
    · cases hf
      exact Or.inl hstream
  · exact Or.inr (by simp [Packet.reportsConn, hop.2.2.1])
  · obtain ⟨b, -, -, -, htype, -⟩ := hop
    exact Or.inr (by simp [Packet.reportsConn, htype])
  · exact Or.inr rfl
  · cases hf
    obtain ⟨b', -, hk⟩ := hop
    exact Or.inl hk.2.1

/-- The operations with which a dispatcher hands a connection over. -/
def Op.hands : Op → Bool
  | .addEstablished _ _ _ => true
  | .sendFrontend _ _ (.dialRsp _ _) => true
  | .removeEstablished _ _ (.undo _ _) => true
  | _ => false

/-- They come in together, for a dial that was pending, or after a refusal. -/
theorem exec_handover {s : ServerState} (hex : exec cfg s t c op = some (s₁, ops, start)) :
    (∀ o ∈ ops, o.hands = false) ∨
      (∃ r b resp pkt p, op = .pendingRemove r (.dialRsp b resp pkt) ∧
        s.pendingDial.pendingDial.lookup r = some p ∧
        ops = [.addEstablished b resp.connectID
            { p with connectID := resp.connectID, agentID := cfg.agentID b },
          .closeWithBackend p.frontend b, .sendFrontend p.frontend pkt (.dialRsp b resp)]) ∨
      ∃ f b resp pkt, op = .sendFrontend (some f) pkt (.dialRsp b resp) ∧
        s.sendFrontend t f pkt c.ok = some (s₁, false) ∧
        ops = [.removeEstablished (cfg.agentID b) resp.connectID (.undo b resp.random)] := by
  suffices h : ops.all (fun o => !o.hands) = true ∨ _ from
    h.imp_left fun h o ho => by simpa using List.all_eq_true.mp h o ho
  cases op with
  | pendingRemove r k =>
      simp only [exec] at hex
      cases hex
      have hlook := s.pendingDial.remove_fst r
      cases k with
      | dialRsp b resp pkt =>
          cases hp : s.pendingDial.pendingDial.lookup r with
          | none =>
              rw [hlook, hp]
              simp only [AfterRemove.next]
              split <;> exact Or.inl rfl
          | some p =>
              rw [hlook, hp]
              simp only [AfterRemove.next]
              split
              · exact Or.inl rfl
              · exact Or.inr (Or.inl ⟨r, b, resp, pkt, p, rfl, hp, rfl⟩)
      | failDial b tell =>
          cases (s.pendingDial.remove r).1 with
          | none => exact Or.inl rfl
          | some p =>
              simp only [AfterRemove.next]
              split <;> exact Or.inl rfl
      | _ => cases (s.pendingDial.remove r).1 <;> exact Or.inl rfl
  | pendingRemoveForBackend b =>
      simp only [exec] at hex
      split at hex <;> cases hex
      exact Or.inl (by simp [Op.hands])
  | pendingRemoveForStream u =>
      simp only [exec] at hex
      split at hex <;> cases hex
      exact Or.inl (by simp [sendBackendDialClose, Op.hands])
  | removeEstablished a cid k =>
      simp only [exec] at hex
      split at hex <;> cases hex <;> cases k <;> exact Or.inl rfl
  | removeEstablishedForBackendConn b =>
      simp only [exec] at hex
      split at hex
      · cases hex
        exact Or.inl rfl
      · split at hex <;> cases hex
        rw [List.all_append]
        split <;> exact Or.inl (by simp [Op.hands])
  | removeEstablishedForStream u =>
      simp only [exec] at hex
      split at hex <;> cases hex
      exact Or.inl (by simp [sendBackendClose, Op.hands])
  | sendFrontend f pkt k =>
      simp only [exec] at hex
      split at hex
      · cases hex
        exact Or.inl rfl
      · next f =>
          split at hex <;> cases hex
          next ok hsend =>
            cases k with
            | done => exact Or.inl rfl
            | dialRsp b resp =>
                cases ok with
                | false => exact Or.inr (Or.inr ⟨f, b, resp, pkt, rfl, hsend, rfl⟩)
                | true => exact Or.inl rfl
  | sendBackend b pkt k =>
      simp only [exec] at hex
      split at hex
      · cases hex
        exact Or.inl rfl
      · split at hex <;> cases hex
        cases k <;> cases c.ok <;> exact Or.inl rfl
  | awaitDial r =>
      simp only [exec] at hex
      split at hex <;> cases hex
      cases c.case <;> exact Or.inl rfl
  | closeMark r =>
      simp only [exec] at hex
      cases hex
      split <;> exact Or.inl rfl
  | _ =>
      simp only [exec] at hex
      repeat' split at hex
      all_goals cases hex
      all_goals exact Or.inl rfl

/-- Whoever is about to enter a connection hands it over next. -/
theorem Grounds.entering (hg : Grounds cfg s) {b : BackendId} {cid : ConnectID}
    {p : ProxyClientConnection} (h : .addEstablished b cid p ∈ s.threads t) :
    ∃ pkt resp, .sendFrontend p.frontend pkt (.dialRsp b resp) ∈ s.threads t ∧
      pkt.answersDial = some p.dialID := by
  obtain ⟨pre, post, heq, pkt, resp, -, hid, rfl⟩ := (hg.sequence t).mem h
  have hmem : .sendFrontend p.frontend pkt (.dialRsp b resp) ∈ s.threads t := by
    rw [heq]
    simp
  obtain ⟨⟨-, -, htype, hpay, -⟩, -⟩ := hg.ops t _ hmem
  exact ⟨pkt, resp, hmem, by rw [answersDial_dialRsp htype hpay, hid]⟩

/-- A packet that is refused is recorded. -/
theorem sendFrontend_refused {s : ServerState} {f : Frontend} {pkt : Packet} {ok : Bool}
    (h : s.sendFrontend t f pkt ok = some (s₁, false)) :
    s₁.log = .toFrontend t f pkt false :: s.log := by
  rcases (sendFrontend_cases h).2.2 with hlog | ⟨-, hpanic⟩
  · exact hlog
  · simp only [ServerState.sendFrontend] at h
    split at h
    · simp only [Option.some.injEq, Prod.mk.injEq] at h
      rw [← h.1, h.2]
      rfl
    · split at h
      · cases h
      · split at h
        · next hsend =>
            cases h
            simp only [StreamState.send] at hsend
            repeat' split at hsend
            all_goals simp_all
        · cases h
          rfl

theorem EnterInv.connected_exec (h : EnterInv cfg s) (hg : Grounds cfg s)
    (ht : s.threads t = op :: rest) (hex : exec cfg s.shared t c op = some (s₁, ops, start))
    {r : DialID} (hr : (s₁.conns r).connected = true) :
    0 < answers s₁.log r ∧ ∃ b, EnteredBy cfg s₁.log b r (s₁.conns r).connID := by
  have hop := hg.ops t op (by rw [ht]; exact List.mem_cons_self)
  have hconn := exec_conns hex
  obtain ⟨es, hlog, -⟩ := exec_adds hop hex
  have hsub : s.shared.log ⊆ s₁.log := by
    rw [hlog]
    exact List.subset_append_right _ _
  rw [hconn r] at hr ⊢
  rcases (connAfter_conn s.shared c op r).2.2 with ⟨hid, hsame⟩ |
    ⟨f, pkt, k, resp, rfl, hf, htype, hpay, -, hid, herr, -⟩
  · rw [hsame] at hr
    rw [hid, hlog]
    obtain ⟨hans, b, hentered⟩ := h.connected r hr
    exact ⟨Nat.lt_of_lt_of_le hans (answers_le_append es _ r), b, hlog ▸ hentered.mono hsub⟩
  · -- The `DIAL_RSP` is handed over by the one who entered the connection.
    have hmem : .sendFrontend (some f) pkt k ∈ s.threads t := by
      rw [ht]
      exact List.mem_cons_self
    have hans := answersDial_dialRsp htype hpay
    obtain ⟨hk, f', heq, hdial⟩ := hop
    cases heq
    obtain rfl : resp.random = r := hasDial_conn hg.origin hg.proxy hf (hdial _ hans)
    rw [hid]
    cases k with
    | done =>
        rcases h.reports t f pkt hmem with hproxy | hnone
        · rw [hproxy] at hf
          cases hf
        · simp [Packet.reportsConn, htype, hpay, herr] at hnone
    | dialRsp b resp' =>
        obtain ⟨rfl, -, -, hpay', -⟩ := hk
        rw [hpay] at hpay'
        cases hpay'
        refine ⟨?_, b, ?_⟩
        · simp only [Konnectivity.exec, ServerState.sendFrontend, hf] at hex
          cases hex
          rw [ServerState.record_log, answers_cons]
          simp [Event.answered, hans]
        · refine ((h.handing b _ pkt resp hmem).resolve_left ?_).mono hsub
          rintro ⟨p, hp, -⟩
          have hlast := hg.sequence (.dispatcher b)
          rw [ht] at hlast hp
          obtain rfl : rest = [] := hlast.1
          simp at hp

theorem EnterInv.undone_exec (h : EnterInv cfg s) (hg : Grounds cfg s)
    (ht : s.threads t = op :: rest) (hex : exec cfg s.shared t c op = some (s₁, ops, start))
    {x : Tid} {a : AgentID} {cid : ConnectID} {b : BackendId} {r : DialID}
    (ho : .removeEstablished a cid (.undo b r) ∈ Function.update s.threads t (ops ++ rest) x) :
    0 < answers s₁.log r ∧ (s₁.conns r).connected = false := by
  have hop := hg.ops t op (by rw [ht]; exact List.mem_cons_self)
  have hconn := exec_conns hex
  obtain ⟨es, hlog, -⟩ := exec_adds hop hex
  -- A connection that is told of its ID had not been answered.
  have hopens : ∀ {r}, (s₁.conns r).connected = true → (s.shared.conns r).connected = true ∨
      answers s.shared.log r = 0 := by
    intro r hr
    rw [hconn r] at hr
    rcases (connAfter_conn s.shared c op r).2.2 with ⟨-, hsame⟩ |
      ⟨f, pkt, k, resp, rfl, hf, htype, hpay, -⟩
    · exact Or.inl (hsame ▸ hr)
    · obtain ⟨-, f', heq, hdial⟩ := hop
      cases heq
      have hans := answersDial_dialRsp htype hpay
      obtain rfl : resp.random = r := hasDial_conn hg.origin hg.proxy hf (hdial _ hans)
      have hheld : Pool.Held Op.tokens s.threads resp.random :=
        ⟨t, _, by rw [ht]; exact List.mem_cons_self, by simp [Op.tokens, hans]⟩
      exact Or.inr (hg.custody.held _ hheld).2
  rcases Pool.mem_of_push ht ho with ⟨-, hnew⟩ | hold
  · rcases exec_handover hex with hnone | ⟨r', b', resp, pkt, p, -, -, rfl⟩ |
      ⟨f, b', resp, pkt, rfl, hsend, rfl⟩
    · cases hnone _ hnew
    · simp at hnew
    · -- The dial was answered just now, and not before.
      simp only [List.mem_singleton, Op.removeEstablished.injEq,
        AfterEstablished.undo.injEq] at hnew
      obtain ⟨-, -, -, rfl⟩ := hnew
      obtain ⟨⟨-, -, htype, hpay, -⟩, -⟩ := hop
      have hans := answersDial_dialRsp htype hpay
      have hheld : Pool.Held Op.tokens s.threads resp.random :=
        ⟨t, _, by rw [ht]; exact List.mem_cons_self, by simp [Op.tokens, hans]⟩
      refine ⟨?_, Bool.eq_false_iff.mpr fun hc => ?_⟩
      · rw [sendFrontend_refused hsend, answers_cons]
        simp [Event.answered, hans]
      · rw [hconn] at hc
        rcases (connAfter_conn s.shared c _ resp.random).2.2 with ⟨-, hsame⟩ |
          ⟨f', pkt', k, resp', heq, hf, -, hpay', hopen, -, herr, -⟩
        · have hpos := (h.connected _ (hsame ▸ hc)).1
          rw [(hg.custody.held _ hheld).2] at hpos
          exact Nat.lt_irrefl 0 hpos
        · cases heq
          have hget := Packet.getDialResponse_iff.mpr hpay'
          simp [ServerState.sendFrontend, hf, ConnState.send, htype, hget, herr, hopen] at hsend
  · obtain ⟨hans, hopen⟩ := h.undone x a cid b r hold
    refine ⟨by rw [hlog]; exact Nat.lt_of_lt_of_le hans (answers_le_append es _ r), ?_⟩
    refine Bool.eq_false_iff.mpr fun hc => ?_
    rcases hopens hc with hc | hzero
    · rw [hopen] at hc
      cases hc
    · rw [hzero] at hans
      exact Nat.lt_irrefl 0 hans

theorem EnterInv.exec (h : EnterInv cfg s) (hg : Grounds cfg s) (ht : s.threads t = op :: rest)
    (hex : exec cfg s.shared t c op = some (s₁, ops, start)) :
    EnterInv cfg ⟨s₁, Function.update s.threads t (ops ++ rest)⟩ := by
  have hop := hg.ops t op (by rw [ht]; exact List.mem_cons_self)
  have hconn := exec_conns hex
  obtain ⟨es, hlog, -⟩ := exec_adds hop hex
  have hsub : s.shared.log ⊆ s₁.log := by
    rw [hlog]
    exact List.subset_append_right _ _
  have hkept : ∀ {r}, (s.shared.conns r).connected = true → (s₁.conns r).connected = true := by
    intro r hr
    rw [hconn r]
    rcases (connAfter_conn s.shared c op r).2.2 with ⟨-, hsame⟩ |
        ⟨-, -, -, -, -, -, -, -, -, -, -, hc⟩
    · rw [hsame, hr]
    · exact hc
  refine ⟨fun x f pkt ho => ?_, fun b f pkt resp ho => ?_, fun r hr => ?_,
    fun x a cid b r ho => ?_, fun r ho => ?_, fun r hr => ?_⟩
  · rcases Pool.mem_of_push ht ho with ⟨-, hnew⟩ | hold
    · exact exec_reports hop hex hnew
    · exact h.reports x f pkt hold
  · rcases Pool.mem_of_push ht ho with ⟨rfl, hnew⟩ | hold
    · rcases exec_handover hex with hnone | ⟨r, b', resp', pkt', p, rfl, hp, rfl⟩ |
        ⟨f', b', resp', pkt', -, -, rfl⟩
      · cases hnone _ hnew
      · simp only [List.mem_cons, Op.sendFrontend.injEq, AfterFrontend.dialRsp.injEq, reduceCtorEq,
          false_or, List.not_mem_nil, or_false] at hnew
        obtain ⟨-, -, rfl, rfl⟩ := hnew
        refine Or.inl ⟨{ p with connectID := resp.connectID, agentID := cfg.agentID b }, ?_,
          (hg.origin.pending r p hp).1.trans hop.2.1.symm⟩
        simp
      · simp at hnew
    · rcases h.handing b f pkt resp hold with ⟨p, hp, hid⟩ | hentered
      · rcases Pool.mem_push hp ht with ⟨heq, hrun⟩ | hstay
        · subst hrun
          refine Or.inr ⟨p, ?_, hid⟩
          simp only [Konnectivity.exec] at hex
          cases hex
          rw [heq]
          simp
        · exact Or.inl ⟨p, hstay, hid⟩
      · exact Or.inr (hentered.mono hsub)
  · exact h.connected_exec hg ht hex hr
  · exact h.undone_exec hg ht hex ho
  · rcases Pool.mem_of_push ht ho with ⟨-, hnew⟩ | hold
    · refine hkept ?_
      rcases exec_leaves hex with hplain | ⟨-, hstays⟩ | ⟨r', -, -, rfl⟩ | ⟨r', -, rfl, hready⟩ |
        ⟨b, pkt, r', -, rfl⟩
      · cases hplain _ hnew
      · cases hstays _ hnew
      · simp at hnew
      · cases hcase : c.case <;> rw [hcase] at hnew <;> simp [DialCase.next] at hnew
        exact hnew ▸ hready hcase
      · simp at hnew
    · exact hkept (h.returning r hold)
  · dsimp only at hr
    rw [hconn r] at hr
    refine hkept ?_
    rcases (connAfter_flags s.shared c op r).2.2.2 true hr with hr | rfl
    · exact h.result r hr
    · obtain ⟨rfl, -⟩ := hop
      exact h.returning r (by rw [ht]; exact List.mem_cons_self)

/-- The operation hands a connection over, or tells a frontend of one. -/
def Op.tells : Op → Bool
  | .sendFrontend _ pkt .done => pkt.reportsConn.isSome
  | o => o.hands

theorem serveRecvBackend_untold {b : BackendId} {pkt : Packet}
    (h : serveRecvBackend cfg b pkt = some ops) : ∀ o ∈ ops, o.tells = false := by
  rcases serveRecvBackend_cases h with rfl | ⟨resp, -, -, rfl⟩ | ⟨r, -, -, rfl⟩ |
    ⟨cid, -, -, rfl⟩ | ⟨cid, -, -, rfl⟩
  all_goals simp [Op.tells, Op.hands]

theorem serveRecvFrontend_untold {f : Frontend} {st st' : StreamState} {pkt : Packet}
    (h : serveRecvFrontend f st pkt = some (st', ops)) : ∀ o ∈ ops, o.tells = false := by
  suffices hall : ops.all (fun o => !o.tells) = true by
    intro o ho
    simpa using List.all_eq_true.mp hall o ho
  unfold serveRecvFrontend at h
  split at h
  all_goals first
    | cases h; rfl
    | skip
  all_goals obtain ⟨req, -, heq⟩ := Option.map_eq_some_iff.mp h
  all_goals repeat' split at heq
  all_goals cases heq
  all_goals rfl

/-- Nothing that arrives does. -/
theorem arrive_untold {s : ServerState} {a : ServerAction}
    (harr : arrive cfg s a = some (s₁, some (t, ops))) : ∀ o ∈ ops, o.tells = false := by
  cases a with
  | deliver b pkt =>
      simp only [arrive] at harr
      split at harr
      · split at harr <;> cases harr
        · exact fun o ho => absurd ho List.not_mem_nil
        · next hops => exact serveRecvBackend_untold hops
      · cases harr
  | receive u pkt =>
      simp only [arrive] at harr
      split at harr
      · split at harr
        · cases harr
        · split at harr <;> cases harr
          · exact fun o ho => absurd ho List.not_mem_nil
          · next hops => exact serveRecvFrontend_untold hops
      · cases harr
  | _ =>
      simp only [arrive] at harr
      repeat' split at harr
      all_goals cases harr
      all_goals simp [Op.tells, Op.hands]

theorem mem_arrived_tells {s₁ : ServerState} {a : ServerAction} {threads : Tid → List Op}
    (harr : arrive cfg s.shared a = some (s₁, start))
    (hthreads : Pool.Arrived s.threads start threads) {o : Op} (ho : o ∈ threads t)
    (htells : o.tells = true) : o ∈ s.threads t := by
  rcases hthreads.of_mem ho with hold | ⟨ops, rfl, hnew⟩
  · exact hold
  · rw [arrive_untold harr o hnew] at htells
    cases htells

theorem EnterInv.arrive (h : EnterInv cfg s) (hg : Grounds cfg s) {a : ServerAction}
    (hdistinct : DistinctDials s.shared a) (harr : arrive cfg s.shared a = some (s₁, start))
    {threads : Tid → List Op} (hthreads : Pool.Arrived s.threads start threads) :
    EnterInv cfg ⟨s₁, threads⟩ := by
  have hlog : ∃ es, s₁.log = es ++ s.shared.log := by
    rcases (arrive_adds harr).2.2 with hlog | ⟨e, -, hlog⟩
    · exact ⟨[], hlog⟩
    · exact ⟨[e], hlog⟩
  obtain ⟨es, hlog⟩ := hlog
  have hsub : s.shared.log ⊆ s₁.log := by
    rw [hlog]
    exact List.subset_append_right _ _
  have hdialer : ∀ {r}, .dialReturn r true ∈ threads (.dialer r) →
      .dialReturn r true ∈ s.threads (.dialer r) := by
    intro r hr
    rcases hthreads.of_mem hr with hold | ⟨ops, rfl, hnew⟩
    · exact hold
    · rcases arrive_leaves harr with hstays | ⟨r', -, rfl, -⟩
      · cases hstays _ hnew
      · simp at hnew
  have hconn := arrive_conns harr
  refine ⟨fun x f pkt ho => ?_, fun b f pkt resp ho => ?_, fun r hr => ?_,
    fun x a cid b r ho => ?_, fun r ho => ?_, fun r hr => ?_⟩
  · cases hrep : pkt.reportsConn with
    | none => exact Or.inr rfl
    | some y =>
        refine (h.reports x f pkt (mem_arrived_tells harr hthreads ho ?_)).imp_right fun hnone => ?_
        · simp [Op.tells, hrep]
        · rw [hrep] at hnone
          cases hnone
  · rcases h.handing b f pkt resp (mem_arrived_tells harr hthreads ho rfl) with ⟨p, hp, hid⟩ | he
    · exact Or.inl ⟨p, hthreads.mem hp, hid⟩
    · exact Or.inr (he.mono hsub)
  · dsimp only at hr ⊢
    rcases hconn r with hsame | ⟨u, b, n, addr, -, hdef⟩
    · rw [hsame] at hr ⊢
      obtain ⟨hans, b, he⟩ := h.connected r hr
      rw [hlog]
      exact ⟨Nat.lt_of_lt_of_le hans (answers_le_append es _ r), b, hlog ▸ he.mono hsub⟩
    · rw [hdef] at hr
      cases hr
  · obtain ⟨hans, hopen⟩ := h.undone x a cid b r (mem_arrived_tells harr hthreads ho rfl)
    dsimp only
    rw [hlog]
    refine ⟨Nat.lt_of_lt_of_le hans (answers_le_append es _ r), ?_⟩
    rcases hconn r with hsame | ⟨u, b, n, addr, -, hdef⟩
    · rw [hsame]
      exact hopen
    · rw [hdef]
  · have hold := hdialer ho
    rcases hconn r with hsame | ⟨u, b, n, addr, rfl, -⟩
    · dsimp only
      rw [hsame]
      exact h.returning r hold
    · obtain ⟨f, hf⟩ := ((hg.ops _ _ hold).leaves_dialed rfl).hasDial
      exact absurd hf (hdistinct r rfl f)
  · dsimp only at hr ⊢
    rcases hconn r with hsame | ⟨u, b, n, addr, -, hdef⟩
    · rw [hsame] at hr ⊢
      exact h.result r hr
    · rw [hdef] at hr
      cases hr

end Enter

theorem server_enter {cfg : ServerConfig} {okExec : ServerState → Tid → Choice → Op → Prop}
    {okArrive : ServerState → ServerAction → Prop} {s : System.State ServerState Tid Op}
    (hdistinct : ∀ s a, okArrive s a → DistinctDials s a)
    (h : Reach (server cfg).step (System.Allowed okExec okArrive) newServer s) :
    EnterInv cfg s := by
  refine server_invariant (EnterInv cfg) ?_ ?_ ?_ ?_ h
  · exact ⟨(fun t f pkt ho => by cases ho), (fun b f pkt resp ho => by cases ho),
      (fun r hr => by cases hr), (fun t a cid b r ho => by cases ho), (fun r ho => by cases ho),
      fun r hr => by cases hr⟩
  · intro s t c op rest s₁ ops start hr hinv _ ht _ hex
    exact hinv.exec (server_grounds hdistinct hr) ht hex
  · intro s r b f hinv
    refine ⟨fun x f' pkt ho => ?_, hinv.handing, hinv.connected, fun x a cid b' r' ho => ?_,
      hinv.returning, hinv.result⟩
    · exact hinv.reports x f' pkt ((mem_timer ho).resolve_right fun hx => by cases hx)
    · exact hinv.undone x a cid b' r' ((mem_timer ho).resolve_right fun hx => by cases hx)
  · intro s a s₁ start threads hr hinv _ hok harr hthreads
    exact hinv.arrive (server_grounds hdistinct hr) (hdistinct _ _ hok) harr hthreads

/-! ## A dial is entered once -/

/-- How often a connection was entered for the dial. -/
def timesEntered (log : List Event) (r : DialID) : Nat :=
  (entered log).countP fun e => e.2.2.dialID == r

/-- The operation answers the dial. -/
def Op.answersDial (r : DialID) (op : Op) : Prop :=
  ∃ f pkt k, op = .sendFrontend f pkt k ∧ pkt.answersDial = some r

structure OnceInv (s : System.State ServerState Tid Op) : Prop where
  once : ∀ r, timesEntered s.shared.log r ≤ 1
  entering : ∀ t b cid p, .addEstablished b cid p ∈ s.threads t →
    timesEntered s.shared.log p.dialID = 0
  -- After the connection was entered the dial is answered, unless the server panics.
  used : ∀ r, 0 < timesEntered s.shared.log r → Pool.Has (fun _ o => o.answersDial r) s.threads ∨
    0 < answers s.shared.log r ∨ s.shared.panic.isSome = true

section Once

variable {cfg : ServerConfig} {s : System.State ServerState Tid Op} {s₁ : ServerState} {t : Tid}
  {c : Choice} {op : Op} {ops rest : List Op} {start : Option (Tid × List Op)}

theorem exec_entered {s : ServerState} (hop : op.Origin cfg s.log t)
    (hex : exec cfg s t c op = some (s₁, ops, start)) :
    entered s₁.log = entered s.log ∨ ∃ b cid p, op = .addEstablished b cid p ∧
      ops = [] ∧ entered s₁.log = (cfg.agentID b, cid, p) :: entered s.log := by
  by_cases hadd : ∃ b cid p, op = .addEstablished b cid p
  · obtain ⟨b, cid, p, rfl⟩ := hadd
    refine Or.inr ⟨b, cid, p, rfl, ?_⟩
    simp only [exec] at hex
    cases hex
    split <;> exact ⟨rfl, rfl⟩
  · obtain ⟨es, hlog, hes⟩ := exec_adds hop hex
    refine Or.inl ?_
    unfold entered
    rw [hlog, List.filterMap_append, List.filterMap_eq_nil_iff.mpr fun e he => ?_, List.nil_append]
    cases e with
    | entered t' a cid p =>
        have hadds := hes _ he
        cases op with
        | addEstablished b cid p => exact absurd ⟨b, cid, p, rfl⟩ hadd
        | _ => simp [Op.Adds] at hadds
    | _ => rfl

/-- The dial of the entry that an operation brings in. -/
theorem timesEntered_exec {s : ServerState} (hop : op.Origin cfg s.log t)
    (hex : exec cfg s t c op = some (s₁, ops, start)) (r : DialID) :
    timesEntered s₁.log r = timesEntered s.log r ∨ ∃ b cid p, op = .addEstablished b cid p ∧
      ops = [] ∧ p.dialID = r ∧ timesEntered s₁.log r = timesEntered s.log r + 1 := by
  unfold timesEntered
  rcases exec_entered hop hex with hsame | ⟨b, cid, p, rfl, hops, hnew⟩
  · rw [hsame]
    exact Or.inl rfl
  · rw [hnew, List.countP_cons]
    by_cases hr : p.dialID = r
    · exact Or.inr ⟨b, cid, p, rfl, hops, hr, by simp [hr]⟩
    · exact Or.inl (by simp [hr])

/-- Two connections are not about to be entered for one dial. -/
theorem Grounds.entering_unique (hg : Grounds cfg s) {t' : Tid} {b b' : BackendId}
    {cid cid' : ConnectID} {p p' : ProxyClientConnection}
    (h : .addEstablished b cid p ∈ s.threads t) (h' : .addEstablished b' cid' p' ∈ s.threads t')
    (hid : p'.dialID = p.dialID) : t' = t := by
  obtain ⟨pkt, resp, hs, hans⟩ := hg.entering h
  obtain ⟨pkt', resp', hs', hans'⟩ := hg.entering h'
  have htok : p.dialID ∈ (s.threads t).flatMap Op.tokens :=
    List.mem_flatMap.mpr ⟨_, hs, Option.mem_toList.mpr hans⟩
  have htok' : p.dialID ∈ (s.threads t').flatMap Op.tokens :=
    List.mem_flatMap.mpr ⟨_, hs', Option.mem_toList.mpr (hid ▸ hans')⟩
  by_contra hne
  exact hg.custody.exclusive.disjoint t' t hne htok' htok

theorem OnceInv.exec (h : OnceInv s) (hg : Grounds cfg s) (hrun : s.shared.panic = none)
    (ht : s.threads t = op :: rest) (hex : exec cfg s.shared t c op = some (s₁, ops, start)) :
    OnceInv ⟨s₁, Function.update s.threads t (ops ++ rest)⟩ := by
  have hmem : op ∈ s.threads t := by
    rw [ht]
    exact List.mem_cons_self
  have hop := hg.ops t op hmem
  have htimes := timesEntered_exec hop hex
  obtain ⟨es, hlog, -⟩ := exec_adds hop hex
  refine ⟨fun r => ?_, fun x b cid p ho => ?_, fun r hr => ?_⟩
  · dsimp only
    rcases htimes r with hsame | ⟨b, cid, p, rfl, -, rfl, hnew⟩
    · rw [hsame]
      exact h.once r
    · rw [hnew, h.entering t b cid p hmem]
  · dsimp only at ho ⊢
    rcases htimes p.dialID with hsame | ⟨b', cid', p', rfl, rfl, hid, -⟩
    · rw [hsame]
      rcases Pool.mem_of_push ht ho with ⟨-, hnew⟩ | hold
      · rcases exec_handover hex with hnone | ⟨r, b', resp, pkt, p', rfl, hp, rfl⟩ |
          ⟨f, b', resp, pkt, -, -, rfl⟩
        · cases hnone _ hnew
        · -- A dial that was pending has not been entered.
          simp only [List.mem_cons, Op.addEstablished.injEq, reduceCtorEq, List.not_mem_nil,
            or_false] at hnew
          obtain ⟨-, -, rfl⟩ := hnew
          have hid : p'.dialID = r := (hg.origin.pending r p' hp).1
          dsimp only
          rw [hid]
          refine Nat.eq_zero_of_not_pos fun hpos => ?_
          rcases h.used r hpos with ⟨y, o, ho, f, pkt', k, rfl, hans⟩ | hans | hpanic
          · have hnone := (hg.custody.held r ⟨y, _, ho, Option.mem_toList.mpr hans⟩).1
            rw [hp] at hnone
            cases hnone
          · rw [hg.custody.pending r p' hp] at hans
            exact Nat.lt_irrefl 0 hans
          · rw [hrun] at hpanic
            cases hpanic
        · simp at hnew
      · exact h.entering x b cid p hold
    · -- What was just entered is not about to be entered again.
      rw [List.nil_append] at ho
      have hlast := hg.sequence t
      rw [ht] at hlast
      obtain ⟨pkt, resp, -, -, rfl⟩ := hlast.1
      by_cases hx : x = t
      · subst hx
        rw [Function.update_self] at ho
        simp at ho
      · rw [Function.update_of_ne hx] at ho
        exact absurd (hg.entering_unique hmem ho hid.symm) hx
  · dsimp only at hr ⊢
    rcases htimes r with hsame | ⟨b, cid, p, rfl, rfl, rfl, -⟩
    · rw [hsame] at hr
      rcases h.used r hr with hhas | hans | hpanic
      · rcases hhas.push ht with ⟨f, pkt, k, rfl, hans⟩ | hhas
        · refine Or.inr ?_
          simp only [Konnectivity.exec] at hex
          split at hex
          · cases hex
            exact Or.inr rfl
          · split at hex <;> cases hex
            next hsend =>
              rcases (sendFrontend_cases hsend).2.2 with hlog | ⟨-, hpanic⟩
              · refine Or.inl ?_
                rw [hlog, answers_cons]
                simp [Event.answered, hans]
              · exact Or.inr (by rw [hpanic]; rfl)
        · exact Or.inl hhas
      · rw [hlog]
        exact Or.inr (Or.inl (Nat.lt_of_lt_of_le hans (answers_le_append es _ r)))
      · rw [hrun] at hpanic
        cases hpanic
    · obtain ⟨pkt, resp, hs, hans⟩ := hg.entering hmem
      have hhas : Pool.Has (fun _ o => o.answersDial p.dialID) s.threads :=
        ⟨t, _, hs, p.frontend, pkt, .dialRsp b resp, rfl, hans⟩
      refine Or.inl ((hhas.push ht).resolve_left ?_)
      rintro ⟨f, pkt', k, heq, -⟩
      cases heq

theorem OnceInv.arrive (h : OnceInv s) (hrun : s.shared.panic = none) {a : ServerAction}
    (harr : arrive cfg s.shared a = some (s₁, start)) {threads : Tid → List Op}
    (hthreads : Pool.Arrived s.threads start threads) : OnceInv ⟨s₁, threads⟩ := by
  have hsame : ∀ r, timesEntered s₁.log r = timesEntered s.shared.log r := by
    intro r
    unfold timesEntered
    rw [(arrive_unaccounted harr).2.1]
  have hanswers : ∀ r, answers s.shared.log r ≤ answers s₁.log r := by
    intro r
    rcases (arrive_adds harr).2.2 with hlog | ⟨e, -, hlog⟩
    · rw [hlog]
    · rw [hlog]
      exact answers_le_append [e] _ r
  refine ⟨fun r => ?_, fun x b cid p ho => ?_, fun r hr => ?_⟩
  · dsimp only
    rw [hsame]
    exact h.once r
  · dsimp only
    rw [hsame]
    exact h.entering x b cid p (mem_arrived_tells harr hthreads ho rfl)
  · dsimp only at hr ⊢
    rw [hsame] at hr
    rcases h.used r hr with ⟨x, o, ho, hans⟩ | hans | hpanic
    · exact Or.inl ⟨x, o, hthreads.mem ho, hans⟩
    · exact Or.inr (Or.inl (Nat.lt_of_lt_of_le hans (hanswers r)))
    · rw [hrun] at hpanic
      cases hpanic

end Once

theorem server_once {cfg : ServerConfig} {okExec : ServerState → Tid → Choice → Op → Prop}
    {okArrive : ServerState → ServerAction → Prop} {s : System.State ServerState Tid Op}
    (hdistinct : ∀ s a, okArrive s a → DistinctDials s a)
    (h : Reach (server cfg).step (System.Allowed okExec okArrive) newServer s) : OnceInv s := by
  refine server_invariant OnceInv ?_ ?_ ?_ ?_ h
  · exact ⟨fun r => Nat.zero_le 1, (fun t b cid p ho => by cases ho), fun r hr => by cases hr⟩
  · intro s t c op rest s₁ ops start hr hinv hrun ht _ hex
    exact hinv.exec (server_grounds hdistinct hr) hrun ht hex
  · intro s r b f hinv
    refine ⟨hinv.once, fun x b' cid p ho => ?_, fun r' hr => ?_⟩
    · exact hinv.entering x b' cid p ((mem_timer ho).resolve_right fun hx => by cases hx)
    · refine (hinv.used r' hr).imp_left ?_
      rintro ⟨x, o, ho, hans⟩
      exact ⟨x, o, mem_timer_of_mem ho, hans⟩
  · intro s a s₁ start threads _ hinv hrun _ harr hthreads
    exact hinv.arrive hrun harr hthreads

/-! ## Who takes the entry away -/

/-- Whatever was removed had been entered before. -/
def Preceded : List Event → Prop
  | [] => True
  | e :: log => (∀ t a c p, e = .removed t a c p → (a, c, p) ∈ entered log) ∧ Preceded log

theorem preceded_append {es log : List Event} (h : Preceded log)
    (hes : ∀ t a c p, .removed t a c p ∈ es → (a, c, p) ∈ entered log) : Preceded (es ++ log) := by
  induction es with
  | nil => exact h
  | cons e es ih =>
      refine ⟨fun t a c p he => ?_, ih fun t a c p he => hes t a c p (List.mem_cons_of_mem _ he)⟩
      show (a, c, p) ∈ (es ++ log).filterMap Event.enters
      rw [List.filterMap_append]
      exact List.mem_append_right _ (hes t a c p (he ▸ List.mem_cons_self))

theorem Preceded.of_append {es log : List Event} (h : Preceded (es ++ log)) : Preceded log := by
  induction es with
  | nil => exact h
  | cons e es ih => exact ih h.2

theorem Preceded.entered {log : List Event} (h : Preceded log) {t : Tid} {e : Entry}
    (he : (t, e) ∈ removals log) : e ∈ entered log := by
  induction log with
  | nil => cases he
  | cons x log ih =>
      have hlater : ∀ {e}, e ∈ Konnectivity.entered log → e ∈ Konnectivity.entered (x :: log) := by
        intro e he
        unfold Konnectivity.entered
        rw [← List.singleton_append, List.filterMap_append]
        exact List.mem_append_right _ he
      obtain ⟨y, hy, heq⟩ := List.mem_filterMap.mp he
      rcases List.mem_cons.mp hy with rfl | hy
      · cases y with
        | removed t' a c p =>
            cases heq
            exact hlater (h.1 _ _ _ _ rfl)
        | _ => cases heq
      · exact hlater (ih h.2 (List.mem_filterMap.mpr ⟨y, hy, heq⟩))

/-- The account of `established`, with the order of the history. -/
structure RemovedInv (s : ServerState) : Prop where
  balance : (entered s.log).Perm (s.established.connections ++ (removals s.log).map fun x => x.2)
  preceded : Preceded s.log
  closers : ∀ t a c p, .removed t a c p ∈ s.log → Origin s.log p ∧
    ∀ f r, p.frontend = some f → f.stream = .serverConn r →
      p.backend.map Tid.dispatcher = some t ∨ t.closes r

section Removed

variable {cfg : ServerConfig} {s : System.State ServerState Tid Op} {s₁ : ServerState} {t : Tid}
  {c : Choice} {op : Op} {ops rest : List Op} {start : Option (Tid × List Op)}

/-- Who removes the entry of an in-process connection: the dispatcher of its
backend, or one of those who call `Close` on it. -/
theorem exec_removed (hg : Grounds cfg s) (hh : HonestLog s.shared.log)
    (ht : s.threads t = op :: rest) (hok : FindsOwn cfg s.shared t c op) {t' : Tid} {a : AgentID}
    {cid : ConnectID} {p : ProxyClientConnection}
    (hadds : op.Adds cfg s.shared t (.removed t' a cid p)) :
    (a, cid, p) ∈ s.shared.established.connections ∧ Origin s.shared.log p ∧
      ∀ f r, p.frontend = some f → f.stream = .serverConn r →
        p.backend.map Tid.dispatcher = some t' ∨ t'.closes r := by
  have hop := hg.ops t op (by rw [ht]; exact List.mem_cons_self)
  have hmem : ∀ {a cid p}, s.shared.established.getFrontend a cid = some p →
      (p.agentID, p.connectID, p) ∈ s.shared.established.connections ∧
        Origin s.shared.log p := by
    intro a cid p hp
    obtain ⟨ha, hc, horigin, -⟩ := hg.origin.established a cid p hp
    exact ⟨by rw [ha, hc]; exact Established.mem_connections.mpr hp, horigin⟩
  cases op with
  | removeEstablished a' cid' k =>
      obtain ⟨p', hp, heq⟩ := hadds
      cases heq
      obtain ⟨-, -, horigin, -⟩ := hg.origin.established a cid p hp
      refine ⟨Established.mem_connections.mpr hp, horigin, fun f r hf hstream => ?_⟩
      obtain ⟨f', b', hf', hb', hd⟩ := horigin
      obtain rfl : f' = f := Option.some.inj (hf'.symm.trans hf)
      have hid : p.dialID = r := hasDial_conn hg.origin hg.proxy hstream (Or.inr ⟨b', hd⟩)
      cases k with
      | undo b r' =>
          -- The agent answered a dial that went over its own stream.
          obtain ⟨rfl, -, pkt, hpkt, hrep⟩ := hop
          have hr : p.dialID = r' := by simpa [FindsOwn, Op.findsOwn, hp] using hok
          obtain ⟨f₁, hd₁⟩ := hh b pkt r' hpkt (Packet.answersDial_of_reports hrep)
          rw [hb', hg.custody.backend f' f₁ b' b r' (hr ▸ hd) hd₁]
          exact Or.inl rfl
      | closeRsp pkt => exact Or.inl (by simpa [FindsOwn, Op.findsOwn, hp] using hok)
      | closeConn b r' =>
          have hr : p.dialID = r' := by simpa [FindsOwn, Op.findsOwn, hp] using hok
          exact Or.inr (hid ▸ hr ▸ hop.1)
  | removeEstablishedForBackendConn b =>
      rcases hadds with heq | ⟨cid', p', hp, hb, heq⟩
      · cases heq
      · cases heq
        obtain ⟨ha, -⟩ := hg.origin.established _ cid' p hp
        refine ⟨by rw [← ha]; exact (hmem hp).1, (hmem hp).2, fun f r _ _ => Or.inl ?_⟩
        rw [hb, show t = Tid.dispatcher b from hop]
        rfl
  | removeEstablishedForStream u =>
      rcases hadds with heq | ⟨a', cid', p', hp, hu, heq⟩
      · cases heq
      · cases heq
        refine ⟨(hmem hp).1, (hmem hp).2, fun f r hf hstream => ?_⟩
        -- No handler serves the frontend of an in-process dial.
        obtain ⟨f', b', hf', -, hd⟩ := (hmem hp).2
        obtain rfl : f' = f := Option.some.inj (hf'.symm.trans hf)
        have hidle := (hg.stream.conn f' b' _ hd (by rw [hstream]; simp)).2.1
        have huid : f'.streamUID = u := by
          simpa [ProxyClientConnection.ofStream, hf] using hu
        rw [huid, ← hop.1, ht] at hidle
        cases hidle
  | addEstablished b cid' p' => rcases hadds with heq | ⟨old, -, heq⟩ <;> cases heq
  | sendFrontend f pkt k =>
      obtain ⟨f', ok, -, heq⟩ := hadds
      cases heq
  | sendBackend b pkt k =>
      obtain ⟨b', ok, -, heq⟩ := hadds
      cases heq
  | selectBackend f req pkt =>
      obtain ⟨b, heq⟩ := hadds
      cases heq
  | _ => cases hadds

theorem RemovedInv.exec (h : RemovedInv s.shared) (hg : Grounds cfg s)
    (hh : HonestLog s.shared.log) (ht : s.threads t = op :: rest)
    (hok : FindsOwn cfg s.shared t c op)
    (hex : exec cfg s.shared t c op = some (s₁, ops, start)) : RemovedInv s₁ := by
  have hop := hg.ops t op (by rw [ht]; exact List.mem_cons_self)
  have hfree : EntersFree cfg s.shared t c op := by
    cases op with
    | addEstablished b cid p => exact Option.isNone_iff_eq_none.mp hok
    | _ => trivial
  obtain ⟨added, taken, hacc⟩ := exec_accounted hg.origin hop hfree hex
  obtain ⟨es, hlog, hes⟩ := exec_adds hop hex
  have hsub : s.shared.log ⊆ s₁.log := by
    rw [hlog]
    exact List.subset_append_right _ _
  refine ⟨hacc.keeps h.balance, ?_, fun t' a cid p hp => ?_⟩
  · rw [hlog]
    refine preceded_append h.preceded fun t' a cid p hp => ?_
    exact h.balance.mem_iff.mpr
      (List.mem_append_left _ (exec_removed hg hh ht hok (hes _ hp)).1)
  · rw [hlog] at hp
    rcases List.mem_append.mp hp with hp | hp
    · obtain ⟨-, horigin, hclosers⟩ := exec_removed hg hh ht hok (hes _ hp)
      exact ⟨horigin.mono hsub, hclosers⟩
    · obtain ⟨horigin, hclosers⟩ := h.closers t' a cid p hp
      exact ⟨horigin.mono hsub, hclosers⟩

theorem RemovedInv.arrive (h : RemovedInv s.shared) {a : ServerAction}
    (harr : arrive cfg s.shared a = some (s₁, start)) : RemovedInv s₁ := by
  obtain ⟨hsame, hentered, hremovals, -⟩ := arrive_unaccounted harr
  have hold : ∀ {t a cid p}, .removed t a cid p ∈ s₁.log → .removed t a cid p ∈ s.shared.log :=
    fun hp => (arrive_event harr hp).resolve_right (by simp [Event.arrives])
  have hlog : ∃ es, s₁.log = es ++ s.shared.log ∧ ∀ e ∈ es, e.arrives = true := by
    rcases (arrive_adds harr).2.2 with hlog | ⟨e, he, hlog⟩
    · exact ⟨[], hlog, by simp⟩
    · exact ⟨[e], hlog, by simpa using he⟩
  obtain ⟨es, hlog, hes⟩ := hlog
  refine ⟨?_, ?_, fun t a cid p hp => ?_⟩
  · rw [hentered, hremovals, hsame]
    exact h.balance
  · rw [hlog]
    exact preceded_append h.preceded fun t a cid p hp => by cases hes _ hp
  · obtain ⟨horigin, hclosers⟩ := h.closers t a cid p (hold hp)
    refine ⟨horigin.mono ?_, hclosers⟩
    rw [hlog]
    exact List.subset_append_right _ _

end Removed

theorem server_removed {cfg : ServerConfig} {okArrive : ServerState → ServerAction → Prop}
    {s : System.State ServerState Tid Op} (harrive : ∀ s a, okArrive s a → HonestDials s a)
    (h : Reach (server cfg).step (System.Allowed (FindsOwn cfg) okArrive) newServer s) :
    RemovedInv s.shared := by
  refine server_invariant (fun s => RemovedInv s.shared) ?_ ?_ ?_ ?_ h
  · exact ⟨.nil, trivial, fun t a c p hp => by cases hp⟩
  · intro s t c op rest s₁ ops start hr hinv _ ht hok hex
    exact hinv.exec (server_grounds (fun s a hok => (harrive s a hok).1) hr)
      (server_honest (fun s a hok => (harrive s a hok).2) hr) ht hok hex
  · exact fun hinv => hinv
  · intro s a s₁ start threads _ hinv _ _ harr _
    exact hinv.arrive harr

/-! ## In-process dials never leak -/

/-- The connection of the dial was entered; since then it stands in the table,
or one removal has taken it out, by the dispatcher of its backend or by one of
those who call `Close`. Once a call of `Close` has returned it is gone. -/
def ClosedOnce (cfg : ServerConfig) (s : System.State ServerState Tid Op) (r : DialID) : Prop :=
  ∃ b p later earlier,
    s.shared.log =
      later ++ .entered (.dispatcher b) (cfg.agentID b) (s.shared.conns r).connID p :: earlier ∧
    p.dialID = r ∧ (∀ x ∈ removals earlier, x.2.2.2.dialID ≠ r) ∧
    ((s.shared.established.getFrontend (cfg.agentID b) (s.shared.conns r).connID = some p ∧
        (∀ x ∈ removals s.shared.log, x.2.2.2.dialID ≠ r) ∧
        (s.shared.conns r).closeDone = false) ∨
      ((∀ a c p', s.shared.established.getFrontend a c = some p' → p'.dialID ≠ r) ∧
        ∃ t, (removals s.shared.log).filter (fun x => x.2.2.2.dialID == r) =
            [(t, cfg.agentID b, (s.shared.conns r).connID, p)] ∧
          (p.backend.map Tid.dispatcher = some t ∨ t.closes r)))

/-- A connection that was handed over is no longer in the hands of the dispatcher. -/
theorem EnterInv.not_handing {cfg : ServerConfig} {s : System.State ServerState Tid Op}
    (h : EnterInv cfg s) (hg : Grounds cfg s) {r : DialID}
    (hr : (s.shared.conns r).connected = true) {a : AgentID} {cid : ConnectID}
    {p : ProxyClientConnection} (hid : p.dialID = r) : ¬ Handing cfg s.threads a cid p := by
  rintro ⟨b, -, o, ho, ⟨pkt, resp, rfl, hresp, -⟩ | rfl⟩
  · obtain ⟨⟨-, -, htype, hpay, -⟩, -⟩ := hg.ops _ _ ho
    have hheld : Pool.Held Op.tokens s.threads r :=
      ⟨_, _, ho, by simp [Op.tokens, answersDial_dialRsp htype hpay, hresp, hid]⟩
    have hpos := (h.connected r hr).1
    rw [(hg.custody.held r hheld).2] at hpos
    exact Nat.lt_irrefl 0 hpos
  · have hopen := (h.undone _ _ _ _ _ ho).2
    rw [hid, hr] at hopen
    cases hopen

theorem entered_singleton {log : List Event} {r : DialID} (h : timesEntered log r ≤ 1) {x : Entry}
    (hx : x ∈ entered log) (hid : x.2.2.dialID = r) :
    (entered log).filter (fun e => e.2.2.dialID == r) = [x] := by
  have hmem : x ∈ (entered log).filter (fun e => e.2.2.dialID == r) :=
    List.mem_filter.mpr ⟨hx, by simp [hid]⟩
  unfold timesEntered at h
  rw [List.countP_eq_length_filter] at h
  have hone := Nat.le_antisymm h (List.length_pos_of_mem hmem)
  obtain ⟨y, hy⟩ := List.length_eq_one_iff.mp hone
  rw [hy] at hmem ⊢
  rw [List.mem_singleton.mp hmem]

/-- A connection that was returned is closed once. -/
theorem returned_closed_once {cfg : ServerConfig} {s : System.State ServerState Tid Op}
    (h : Reach (server cfg).step (System.Allowed (FindsOwn cfg) NumberedDials) newServer s)
    {r : DialID} (hres : (s.shared.conns r).result = some true) : ClosedOnce cfg s r := by
  have hg := server_grounds (fun _ _ hok => hok.1.1) h
  have he := server_entry (fun _ _ hok => hok) h
  have henter := server_enter (fun _ _ hok => hok.1.1) h
  have honce := server_once (fun _ _ hok => hok.1.1) h
  have hrem := server_removed (fun _ _ hok => hok.1) h
  have hdialed := hg.origin.result r true hres
  have hconn := henter.result r hres
  obtain ⟨b, p, hp, hid⟩ := (henter.connected r hconn).2
  obtain ⟨later, earlier, hlog⟩ := List.append_of_mem hp
  have hx : (cfg.agentID b, (s.shared.conns r).connID, p) ∈ entered s.shared.log :=
    List.mem_filterMap.mpr ⟨_, hp, rfl⟩
  have hsingle := entered_singleton (honce.once r) hx hid
  refine ⟨b, p, later, earlier, hlog, hid, ?_, ?_⟩
  · -- A removal before would have had an entry of its own.
    rintro ⟨t, e⟩ he' hid'
    have hprec : Preceded earlier := by
      have := hrem.preceded
      rw [hlog] at this
      exact this.of_append.2
    have hmem := hprec.entered he'
    have hcount := honce.once r
    unfold timesEntered entered at hcount
    rw [hlog, List.filterMap_append, List.filterMap_cons, List.countP_append] at hcount
    have hpos : 0 < (entered earlier).countP fun e => e.2.2.dialID == r :=
      List.countP_pos_iff.mpr ⟨e, hmem, beq_iff_eq.mpr hid'⟩
    unfold entered at hpos
    simp only [Event.enters, List.countP_cons, hid, beq_self_eq_true, if_true] at hcount
    omega
  · have hperm := hrem.balance.filter fun e => e.2.2.dialID == r
    rw [hsingle, List.filter_append, List.filter_map] at hperm
    rcases List.append_eq_singleton_iff.mp (List.singleton_perm.mp hperm).symm with
      ⟨htable, hremoved⟩ | ⟨htable, hremoved⟩
    · refine Or.inr ⟨fun a c p' hp' hid' => ?_, ?_⟩
      · refine List.filter_eq_nil_iff.mp htable _ (Established.mem_connections.mpr hp') ?_
        simp [hid']
      · obtain ⟨⟨t, e⟩, hfilter, heq⟩ := List.map_eq_singleton_iff.mp hremoved
        cases heq
        refine ⟨t, hfilter, ?_⟩
        have hmem : (t, cfg.agentID b, (s.shared.conns r).connID, p) ∈ removals s.shared.log :=
          (List.mem_filter.mp (hfilter ▸ List.mem_singleton.mpr rfl)).1
        obtain ⟨e, hev, heq⟩ := List.mem_filterMap.mp hmem
        cases e with
        | removed t' a c p' =>
            cases heq
            obtain ⟨⟨f, b', hf, -, hd⟩, hclosers⟩ := hrem.closers _ _ _ _ hev
            exact hclosers f r hf (hg.conn hdialed (Or.inr ⟨b', hid ▸ hd⟩))
        | _ => cases heq
    · have hget : s.shared.established.getFrontend (cfg.agentID b) (s.shared.conns r).connID =
          some p := by
        have hmem : _ ∈ s.shared.established.connections.filter fun e => e.2.2.dialID == r :=
          htable ▸ List.mem_singleton.mpr rfl
        exact Established.mem_connections.mp (List.mem_filter.mp hmem).1
      refine Or.inl ⟨hget, fun x hx hidx => ?_, Bool.eq_false_iff.mpr fun hdone => ?_⟩
      · refine List.filter_eq_nil_iff.mp (List.map_eq_nil_iff.mp hremoved) x hx ?_
        simp [hidx]
      · exact henter.not_handing hg hconn hid (closed_entry hg he hdialed hdone hget hid)

/-- Over any run in which dial IDs are distinct, agents answer only their own
dials and number their connections, and every operation on `established` finds
its own entry: a dial that failed leaves nothing behind once the handlers of
its responses have finished, and a connection that was returned had been
entered and is removed by one close. -/
theorem in_process_dials_never_leak {cfg : ServerConfig} {s : System.State ServerState Tid Op}
    (h : Reach (server cfg).step (System.Allowed (FindsOwn cfg) NumberedDials) newServer s)
    (r : DialID) :
    ((s.shared.conns r).result = some false → HandlersDone s r → NothingLeft s r) ∧
      ((s.shared.conns r).result = some true → ClosedOnce cfg s r) :=
  ⟨fun hres hdone => failed_leaves_nothing h hres hdone, fun hres => returned_closed_once h hres⟩

instance NumbersConns.decidable : ∀ a, Decidable (NumbersConns a)
  | .deliver _ pkt =>
      match hr : pkt.reportsConn with
      | none => isTrue fun r c hrc => by rw [hr] at hrc; cases hrc
      | some x =>
          decidable_of_iff (x.2 ≠ 0)
            ⟨fun h r c hrc => by rw [hr] at hrc; cases hrc; exact h, fun h => h x.1 x.2 hr⟩
  | .connect _ | .recvEnd _ _ | .drained _ | .disconnect _ | .ctxDone _ | .openStream _ _
  | .receive _ _ | .shutdown _ | .dial _ _ _ _ _ | .userClose _ | .watchClose _ => isTrue trivial

instance NumberedDials.decidable (s : ServerState) (a : ServerAction) :
    Decidable (NumberedDials s a) :=
  inferInstanceAs (Decidable (HonestDials s a ∧ NumbersConns a))

instance FindsOwn.decidable (cfg : ServerConfig) (s : ServerState) (t : Tid) (c : Choice)
    (op : Op) : Decidable (FindsOwn cfg s t c op) :=
  inferInstanceAs (Decidable (op.findsOwn cfg s t = true))

/-- Dial 10 is cancelled while the dispatcher has entered its connection and not
yet handed it over; dial 11 succeeds and its connection is closed. -/
theorem in_process_dials_never_leak_raced :
    let cfg : ServerConfig := ⟨fun _ => { id := "a" }, false⟩
    ∃ s : System.State ServerState Tid Op,
      Reach (server cfg).step (System.Allowed (FindsOwn cfg) NumberedDials) newServer s ∧
        timesEntered s.shared.log 10 = 1 ∧ NothingLeft s 10 ∧
        (s.shared.conns 11).closeDone = true ∧ ClosedOnce cfg s 11 := by
  intro cfg
  let acts : List (System.Action Tid ServerAction Choice) := List.flatten
    [[.arrive (.connect 0), .arrive (.dial "x" 10 0 "" "h")],
      List.replicate 2 (.run (.dialer 10) {}),
      [.arrive (.deliver 0 (.ofDialResponse ⟨"", 1, 10⟩))],
      List.replicate 2 (.run (.dispatcher 0) {}),
      [.run (.dialer 10) { case := .cancelled }], List.replicate 6 (.run (.dialer 10) {}),
      List.replicate 5 (.run (.dispatcher 0) {}),
      [.arrive (.dial "y" 11 0 "" "h")], List.replicate 2 (.run (.dialer 11) {}),
      [.arrive (.deliver 0 (.ofDialResponse ⟨"", 2, 11⟩))],
      List.replicate 4 (.run (.dispatcher 0) {}), List.replicate 2 (.run (.dialer 11) {}),
      [.arrive (.userClose 11)], List.replicate 6 (.run (.closer 11) {})]
  have hrun : ∃ s, run (server cfg).step newServer acts = some s ∧
      timesEntered s.shared.log 10 = 1 ∧ (s.shared.conns 10).result = some false ∧
      (s.shared.conns 11).result = some true ∧ (s.shared.conns 11).closeDone = true ∧
      ∀ b, s.threads (.dispatcher b) = [] := by
    refine ⟨_, rfl, by decide, rfl, rfl, rfl, fun b => ?_⟩
    cases b <;> rfl
  obtain ⟨s, hs, htimes, hfailed, hreturned, hclosed, hdisp⟩ := hrun
  have hreach : Reach (server cfg).step (System.Allowed (FindsOwn cfg) NumberedDials) newServer s :=
    reach_of_run hs (by decide)
  have hdone : HandlersDone s 10 := by
    refine ⟨fun b o ho => ?_, fun b c _ o ho => ?_⟩
    · rw [hdisp] at ho
      cases ho
    · rw [hdisp] at ho
      cases ho
  exact ⟨s, hreach, htimes, (in_process_dials_never_leak hreach 10).1 hfailed hdone, hclosed,
    (in_process_dials_never_leak hreach 11).2 hreturned⟩

/-! ## A connection that was not its own -/

instance Live.decidable (b : BackendId) (r : DialID) (c : ConnectID) :
    ∀ log, Decidable (Live b r c log)
  | [] => isFalse id
  | e :: log =>
      have := Live.decidable b r c log
      inferInstanceAs (Decidable (e.reports b r c = true ∨ (e.closes b c = false ∧ Live b r c log)))

def Event.reported : Event → Option (BackendId × DialID × ConnectID)
  | .fromBackend b pkt => pkt.reportsConn.map fun x => (b, x.1, x.2)
  | _ => none

/-- When a connection is reported, its agent has no live connection of that ID. -/
def UniqueConns (cfg : ServerConfig) (s : ServerState) : ServerAction → Prop
  | .deliver b pkt => ∀ y ∈ pkt.reportsConn.toList, ∀ x ∈ s.log.filterMap Event.reported,
      cfg.agentID x.1 = cfg.agentID b → x.2.2 = y.2 → ¬ Live x.1 x.2.1 x.2.2 s.log
  | _ => True

instance UniqueConns.decidable (cfg : ServerConfig) (s : ServerState) :
    ∀ a, Decidable (UniqueConns cfg s a)
  | .deliver _ pkt =>
      @List.decidableBAll _ _ (fun _ => List.decidableBAll _ (s.log.filterMap Event.reported))
        pkt.reportsConn.toList
  | .connect _ | .recvEnd _ _ | .drained _ | .disconnect _ | .ctxDone _ | .openStream _ _
  | .receive _ _ | .shutdown _ | .dial _ _ _ _ _ | .userClose _ | .watchClose _ => isTrue trivial

/-- The stream of the agent ends and it comes back on another, where it starts
to number its connections again. Closing the old connection takes away the
entry of the new one, so that `Close` finds nothing when the new dial is given
up, and the agent keeps the connection. -/
theorem in_process_dial_leaks :
    let cfg : ServerConfig := ⟨fun _ => { id := "a" }, false⟩
    ∃ s : System.State ServerState Tid Op,
      Reach (server cfg).step (System.Allowed (fun _ _ _ _ => True)
          fun s a => NumberedDials s a ∧ UniqueConns cfg s a) newServer s ∧
        (s.shared.conns 11).result = some false ∧ HandlersDone s 11 ∧
        (s.shared.backends 1).stopped = false ∧ (s.shared.backends 1).ctxDone = false ∧
        s.shared.log.any (Event.closes 1 1) = false ∧ ¬ NothingLeft s 11 := by
  intro cfg
  let entry : ProxyClientConnection :=
    { frontend := some ⟨"x", .serverConn 10⟩, dialID := 10, connectID := 1, agentID := "a"
      backend := some 0, dialAddress := "h" }
  let acts : List (System.Action Tid ServerAction Choice) := List.flatten
    [[.arrive (.connect 0), .arrive (.dial "x" 10 0 "" "h")],
      List.replicate 2 (.run (.dialer 10) {}),
      [.arrive (.deliver 0 (.ofDialResponse ⟨"", 1, 10⟩))],
      List.replicate 4 (.run (.dispatcher 0) {}), List.replicate 2 (.run (.dialer 10) {}),
      [.arrive (.recvEnd 0 true), .arrive (.drained 0), .run (.dispatcher 0) {},
        .run (.dispatcher 0) { order := [entry] }],
      List.replicate 3 (.run (.dispatcher 0) {}),
      [.arrive (.connect 1), .arrive (.dial "y" 11 1 "" "h")],
      List.replicate 2 (.run (.dialer 11) {}),
      [.arrive (.deliver 1 (.ofDialResponse ⟨"", 1, 11⟩))],
      List.replicate 2 (.run (.dispatcher 1) {}),
      [.arrive (.userClose 10)], List.replicate 6 (.run (.closer 10) {}),
      List.replicate 2 (.run (.dispatcher 1) {}),
      [.run (.dialer 11) { case := .cancelled }], List.replicate 6 (.run (.dialer 11) {})]
  have hrun : ∃ s, run (server cfg).step newServer acts = some s ∧
      (s.shared.conns 11).result = some false ∧ (s.shared.backends 1).stopped = false ∧
      (s.shared.backends 1).ctxDone = false ∧ s.shared.log.any (Event.closes 1 1) = false ∧
      s.shared.log.any (Event.reports 1 11 1) = true ∧ ∀ b, s.threads (.dispatcher b) = [] := by
    refine ⟨_, rfl, rfl, rfl, rfl, by decide, by decide, fun b => ?_⟩
    rcases b with - | - | b <;> rfl
  obtain ⟨s, hs, hfailed, hstopped, hctx, hnone, hrep, hdisp⟩ := hrun
  refine ⟨s, reach_of_run hs (by decide), hfailed, ?_, hstopped, hctx, hnone, fun h => ?_⟩
  · refine ⟨fun b o ho => ?_, fun b c _ o ho => ?_⟩
    · rw [hdisp] at ho
      cases ho
    · rw [hdisp] at ho
      cases ho
  · obtain ⟨e, he, hr⟩ := List.any_eq_true.mp hrep
    obtain ⟨later, earlier, hlog⟩ := List.append_of_mem he
    have hclosed : ∃ e' ∈ later, e'.closes 1 1 = true := by
      rcases h.closed 1 1 later e earlier hlog hr with ⟨e', he', hc⟩ | ⟨e', he', hc⟩
      · exact ⟨e', he', by rw [Event.closes, hc, Bool.true_or]⟩
      · exact ⟨e', he', by rw [Event.closes, hc, Bool.or_true]⟩
    obtain ⟨e', he', hc⟩ := hclosed
    have hmem : e' ∈ s.shared.log := hlog ▸ List.mem_append_left _ he'
    exact absurd (List.any_eq_true.mpr ⟨e', hmem, hc⟩) (by rw [hnone]; exact Bool.false_ne_true)

end Konnectivity
