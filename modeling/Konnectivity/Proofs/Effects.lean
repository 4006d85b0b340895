import Konnectivity.Proofs.Origin

/-!
# What one operation can do

For the history and for the established connections, the effect of every
operation in one place. An invariant that depends on some of the operations
only reads off here that the others leave it alone.
-/

namespace Konnectivity

open Lib

/-! ## The history -/

/-- The events an operation of goroutine `t` may add. -/
def Op.Adds (cfg : ServerConfig) (s : ServerState) (t : Tid) : Op → Event → Prop
  | .pendingAdd r _, e => e = .pendingAdded r
  | .pendingRemoveForBackend b, e => e = .failedPending b
  | .addEstablished b c p, e => e = .entered t (cfg.agentID b) c p ∨
      ∃ old, s.established.getFrontend (cfg.agentID b) c = some old ∧
        e = .overwritten t (cfg.agentID b) c old
  | .removeEstablished a c _, e =>
      ∃ p, s.established.getFrontend a c = some p ∧ e = .removed t a c p
  | .removeEstablishedForBackendConn b, e => e = .closedEstablished b ∨
      ∃ c p, s.established.getFrontend (cfg.agentID b) c = some p ∧ p.backend = some b ∧
        e = .removed t (cfg.agentID b) p.connectID p
  | .removeEstablishedForStream u, e => e = .scannedEstablished u ∨
      ∃ a c p, s.established.getFrontend a c = some p ∧ p.ofStream u = true ∧
        e = .removed t p.agentID p.connectID p
  | .sendFrontend f pkt _, e => ∃ f' ok, f = some f' ∧ e = .toFrontend t f' pkt ok
  | .sendBackend b pkt _, e => ∃ b' ok, b = some b' ∧ e = .toBackend t b' pkt ok
  | .queueSend b pkt, e => e = .queued t b pkt
  | .observeClosed n, e => e = .countedClosed n
  | .selectBackend f req _, e => ∃ b, e = .dialing f b req.random
  | _, _ => False

section Exec

variable {cfg : ServerConfig} {s s₁ : ServerState} {t : Tid} {c : Choice} {op : Op}
  {ops : List Op} {start : Option (Tid × List Op)}

theorem sendFrontend_cases {f : Frontend} {pkt : Packet} {ok ok' : Bool}
    (h : s.sendFrontend t f pkt ok = some (s₁, ok')) :
    s₁.pendingDial = s.pendingDial ∧ s₁.established = s.established ∧
      (s₁.log = .toFrontend t f pkt ok' :: s.log ∨
        (s₁.log = s.log ∧ s₁.panic = some .closeOfClosedChannel)) := by
  simp only [ServerState.sendFrontend] at h
  split at h
  · injection h with h
    injection h with h h'
    subst h h'
    exact ⟨rfl, rfl, Or.inl rfl⟩
  · split at h
    · cases h
    · split at h
      · next reason hst =>
          injection h with h
          injection h with h h'
          subst h
          have hreason : reason = .closeOfClosedChannel := by
            simp only [StreamState.send] at hst
            repeat' split at hst
            all_goals first
              | (injection hst with hst; exact hst.symm)
              | cases hst
          exact ⟨rfl, rfl, Or.inr ⟨rfl, by rw [hreason]; rfl⟩⟩
      · injection h with h
        injection h with h h'
        subst h h'
        exact ⟨rfl, rfl, Or.inl rfl⟩

theorem exec_adds (hop : op.Origin cfg s.log t)
    (hex : exec cfg s t c op = some (s₁, ops, start)) :
    ∃ es, s₁.log = es ++ s.log ∧ ∀ e ∈ es, op.Adds cfg s t e := by
  have one : ∀ {s₁ : ServerState} {e : Event}, s₁.log = e :: s.log → op.Adds cfg s t e →
      ∃ es, s₁.log = es ++ s.log ∧ ∀ e ∈ es, op.Adds cfg s t e :=
    fun {s₁ e} hlog he => ⟨[e], hlog, fun x hx => List.mem_singleton.mp hx ▸ he⟩
  have quiet : ∀ {s₁ : ServerState}, s₁.log = s.log →
      ∃ es, s₁.log = es ++ s.log ∧ ∀ e ∈ es, op.Adds cfg s t e :=
    fun {s₁} hlog => ⟨[], hlog, by simp⟩
  cases op with
  | pendingAdd r p =>
      simp only [exec] at hex
      cases hex
      exact one rfl rfl
  | pendingRemoveForBackend b =>
      simp only [exec] at hex
      split at hex <;> cases hex
      exact one rfl rfl
  | addEstablished b cid p =>
      simp only [exec] at hex
      cases hex
      split
      · exact one rfl (Or.inl rfl)
      · next old hold =>
          refine ⟨[.entered t (cfg.agentID b) cid p, .overwritten t (cfg.agentID b) cid old], rfl,
            fun e he => ?_⟩
          simp only [List.mem_cons, List.not_mem_nil, or_false] at he
          rcases he with rfl | rfl
          · exact Or.inl rfl
          · exact Or.inr ⟨old, hold, rfl⟩
  | removeEstablished a cid k =>
      simp only [exec] at hex
      split at hex
      · cases hex
        exact quiet rfl
      · next p hp =>
          cases hex
          rw [Established.remove_fst] at hp
          exact one rfl ⟨p, hp, rfl⟩
  | removeEstablishedForBackendConn b =>
      simp only [exec] at hex
      split at hex
      · cases hex
        exact one rfl (Or.inl rfl)
      · next ret hret =>
          split at hex <;> cases hex
          next hperm =>
            refine ⟨c.order.map (fun p => .removed t (cfg.agentID b) p.connectID p) ++
              [.closedEstablished b], by simp, fun e he => ?_⟩
            rcases List.mem_append.mp he with he | he
            · obtain ⟨p, hp, rfl⟩ := List.mem_map.mp he
              obtain ⟨cid, hc, hb⟩ :=
                (Established.mem_removeForBackendConn hret).mp (hperm.subset hp)
              exact Or.inr ⟨cid, p, hc, hb, rfl⟩
            · exact Or.inl (List.mem_singleton.mp he)
  | removeEstablishedForStream u =>
      simp only [exec] at hex
      split at hex <;> cases hex
      next hperm =>
        refine ⟨c.order.map (fun p => .removed t p.agentID p.connectID p) ++
          [.scannedEstablished u], by simp, fun e he => ?_⟩
        rcases List.mem_append.mp he with he | he
        · obtain ⟨p, hp, rfl⟩ := List.mem_map.mp he
          obtain ⟨a, cid, hc, hu⟩ :=
            (Established.mem_removeForStream hop.2).mp (hperm.subset hp)
          exact Or.inr ⟨a, cid, p, hc, hu, rfl⟩
        · exact Or.inl (List.mem_singleton.mp he)
  | sendFrontend f pkt k =>
      simp only [exec] at hex
      split at hex
      · cases hex
        exact quiet rfl
      · next f' =>
          split at hex <;> cases hex
          next ok hsend =>
            rcases (sendFrontend_cases hsend).2.2 with hlog | ⟨hlog, -⟩
            · exact one hlog ⟨f', ok, rfl, rfl⟩
            · exact quiet hlog
  | sendBackend b pkt k =>
      simp only [exec] at hex
      split at hex
      · cases hex
        exact quiet rfl
      · next b' =>
          split at hex <;> cases hex
          exact one rfl ⟨b', c.ok, rfl, rfl⟩
  | queueSend b pkt =>
      simp only [exec] at hex
      cases hex
      exact one rfl rfl
  | observeClosed n =>
      simp only [exec] at hex
      cases hex
      exact one rfl rfl
  | selectBackend f req pkt =>
      simp only [exec] at hex
      split at hex
      · cases hex
        exact quiet rfl
      · next b _ =>
          split at hex <;> cases hex
          exact one rfl ⟨b, rfl⟩
  | _ =>
      simp only [exec] at hex
      repeat' split at hex
      all_goals cases hex
      all_goals exact quiet rfl

/-- An event of the new history is old or one the operation adds. -/
theorem exec_event (hop : op.Origin cfg s.log t)
    (hex : exec cfg s t c op = some (s₁, ops, start)) {e : Event} (he : e ∈ s₁.log) :
    e ∈ s.log ∨ op.Adds cfg s t e := by
  obtain ⟨es, hlog, hes⟩ := exec_adds hop hex
  rw [hlog] at he
  rcases List.mem_append.mp he with he | he
  · exact Or.inr (hes e he)
  · exact Or.inl he

/-! ## The pending dials -/

/-- The pending dials after an operation. -/
def Op.pendingAfter (s : ServerState) (op : Op) (r : DialID) : Option ProxyClientConnection :=
  match op with
  | .pendingAdd r' p => if r = r' then some p else s.pendingDial.pendingDial.lookup r
  | .pendingRemove r' _ => if r = r' then none else s.pendingDial.pendingDial.lookup r
  | .pendingRemoveForBackend b =>
      (s.pendingDial.pendingDial.lookup r).filter fun p => !decide (p.backend = some b)
  | .pendingRemoveForStream u =>
      (s.pendingDial.pendingDial.lookup r).filter fun p => !p.ofStream u
  | _ => s.pendingDial.pendingDial.lookup r

theorem exec_pending (hop : op.Origin cfg s.log t)
    (hex : exec cfg s t c op = some (s₁, ops, start)) (r : DialID) :
    s₁.pendingDial.pendingDial.lookup r = op.pendingAfter s r := by
  cases op with
  | pendingAdd r' p =>
      simp only [exec] at hex
      cases hex
      exact PendingDialManager.add_lookup r' r p
  | pendingRemove r' k =>
      simp only [exec] at hex
      cases hex
      exact PendingDialManager.remove_lookup r' r
  | pendingRemoveForBackend b =>
      simp only [exec] at hex
      split at hex <;> cases hex
      exact PendingDialManager.removeForBackend_lookup b r
  | pendingRemoveForStream u =>
      simp only [exec] at hex
      split at hex <;> cases hex
      exact PendingDialManager.removeForStream_lookup hop.2 r
  | addEstablished b cid p =>
      simp only [exec] at hex
      cases hex
      split <;> rfl
  | sendFrontend f pkt k =>
      simp only [exec] at hex
      split at hex
      · cases hex
        rfl
      · split at hex <;> cases hex
        next ok hsend =>
          rw [(sendFrontend_cases hsend).1]
          rfl
  | _ =>
      simp only [exec] at hex
      repeat' split at hex
      all_goals cases hex
      all_goals rfl

/-! ## The established connections -/

/-- The established connections after an operation. -/
def Op.entryAfter (cfg : ServerConfig) (s : ServerState) (op : Op) (a : AgentID)
    (c : ConnectID) : Option ProxyClientConnection :=
  match op with
  | .addEstablished b c' p =>
      if a = cfg.agentID b ∧ c = c' then some p else s.established.getFrontend a c
  | .removeEstablished a' c' _ =>
      if a = a' ∧ c = c' then none else s.established.getFrontend a c
  | .removeEstablishedForBackendConn b =>
      if a = cfg.agentID b then
        (s.established.getFrontend a c).filter fun p => !decide (p.backend = some b)
      else s.established.getFrontend a c
  | .removeEstablishedForStream u =>
      (s.established.getFrontend a c).filter fun p => !p.ofStream u
  | _ => s.established.getFrontend a c

theorem exec_established (hop : op.Origin cfg s.log t)
    (hex : exec cfg s t c op = some (s₁, ops, start)) (a : AgentID) (cid : ConnectID) :
    s₁.established.getFrontend a cid = op.entryAfter cfg s a cid := by
  cases op with
  | addEstablished b cid' p =>
      simp only [exec] at hex
      cases hex
      have hadd := @Established.add_get s.established (cfg.agentID b) a cid' cid p
      split <;> exact hadd
  | removeEstablished a' cid' k =>
      have hget := @Established.remove_get s.established a' a cid' cid
      simp only [exec] at hex
      split at hex <;> cases hex <;> exact hget
  | removeEstablishedForBackendConn b =>
      have hget := @Established.removeForBackendConn_get s.established (cfg.agentID b) a b
        cid
      simp only [exec] at hex
      split at hex
      · cases hex
        exact hget
      · split at hex <;> cases hex
        exact hget
  | removeEstablishedForStream u =>
      simp only [exec] at hex
      split at hex <;> cases hex
      exact Established.removeForStream_get hop.2 a cid
  | sendFrontend f pkt k =>
      simp only [exec] at hex
      split at hex
      · cases hex
        rfl
      · split at hex <;> cases hex
        next ok hsend =>
          rw [(sendFrontend_cases hsend).2.1]
          rfl
  | _ =>
      simp only [exec] at hex
      repeat' split at hex
      all_goals cases hex
      all_goals rfl

/-! ## The in-process connections -/

/-- A `serverConn` after an operation. -/
def Op.connAfter (s : ServerState) (c : Choice) (op : Op) (r : DialID) : ConnState :=
  match op with
  | .sendFrontend (some f) pkt _ =>
      if f.stream = .serverConn r then ((s.conns r).send pkt).1 else s.conns r
  | .closeWithBackend (some f) b =>
      if f.stream = .serverConn r then { s.conns r with watched := some b } else s.conns r
  | .awaitDial r' => if r' = r then (s.conns r).take c.case else s.conns r
  | .closeOnce r' => if r' = r then { s.conns r with closeStarted := true } else s.conns r
  | .closeMark r' =>
      if r' = r then { s.conns r with closed := true, localClosed := true } else s.conns r
  | .closeFinish r' => if r' = r then { s.conns r with closeDone := true } else s.conns r
  | .dialReturn r' ok => if r' = r then { s.conns r with result := some ok } else s.conns r
  | _ => s.conns r

theorem exec_conns (hex : exec cfg s t c op = some (s₁, ops, start)) (r : DialID) :
    s₁.conns r = op.connAfter s c r := by
  have set : ∀ (r' : DialID) (x : ConnState), Function.update s.conns r' x r =
      if r' = r then x else s.conns r := by
    intro r' x
    by_cases hr : r' = r
    · subst hr
      rw [Function.update_self, if_pos rfl]
    · rw [Function.update_of_ne (Ne.symm hr), if_neg hr]
  cases op with
  | sendFrontend f pkt k =>
      simp only [exec] at hex
      split at hex
      · cases hex
        rfl
      · next f' =>
          split at hex <;> cases hex
          next hsend =>
            simp only [ServerState.sendFrontend] at hsend
            simp only [Op.connAfter]
            split at hsend
            · next r' hconn =>
                cases hsend
                simp only [ServerState.record_conns, ServerState.setConn_conns, set, hconn,
                  FrontendStream.serverConn.injEq]
                split
                · next hr => rw [hr]
                · rfl
            · next hproxy =>
                rw [if_neg (by rw [hproxy]; simp)]
                repeat' split at hsend
                all_goals cases hsend
                all_goals rfl
  | closeWithBackend f b =>
      simp only [exec] at hex
      split at hex
      · cases hex
        rfl
      · next f' =>
          split at hex
          · next hproxy =>
              cases hex
              simp [Op.connAfter, hproxy]
          · next r' hconn =>
              cases hex
              simp only [ServerState.setConn_conns, set, Op.connAfter, hconn,
                FrontendStream.serverConn.injEq]
              split
              · next hr => rw [hr]
              · rfl
  | awaitDial r' =>
      simp only [exec] at hex
      split at hex <;> cases hex
      simp only [ServerState.setConn_conns, set, Op.connAfter]
      split
      · next hr => rw [hr]
      · rfl
  | closeOnce r' =>
      simp only [exec] at hex
      split at hex
      · cases hex
        simp only [ServerState.setConn_conns, set, Op.connAfter]
        split
        · next hr => rw [hr]
        · rfl
      · next hstarted =>
          split at hex <;> cases hex
          simp only [Op.connAfter]
          split
          · next hr =>
              subst hr
              have : (s.conns r').closeStarted = true := by simpa using hstarted
              rw [← this]
          · rfl
  | closeMark r' =>
      simp only [exec] at hex
      cases hex
      simp only [ServerState.setConn_conns, set, Op.connAfter]
      split
      · next hr => rw [hr]
      · rfl
  | closeFinish r' =>
      simp only [exec] at hex
      cases hex
      simp only [ServerState.setConn_conns, set, Op.connAfter]
      split
      · next hr => rw [hr]
      · rfl
  | dialReturn r' ok =>
      simp only [exec] at hex
      cases hex
      simp only [ServerState.setConn_conns, set, Op.connAfter]
      split
      · next hr => rw [hr]
      · rfl
  | addEstablished b cid p =>
      simp only [exec] at hex
      cases hex
      split <;> rfl
  | _ =>
      simp only [exec] at hex
      repeat' split at hex
      all_goals cases hex
      all_goals rfl

/-! ## Packets for the frontends -/

theorem AfterRemove.next_sends {log : List Event} {r : DialID} {k : AfterRemove}
    (hk : k.Origin log t r) {pd : Option ProxyClientConnection} {f : Option Frontend}
    {pkt : Packet} {k' : AfterFrontend}
    (h : .sendFrontend f pkt k' ∈ k.next cfg.agentID r pd) :
    pkt.answersDial = some r ∧ (k' = .done → pkt.reportsConn = none ∨
      ∃ f', f = some f' ∧ f'.stream = .proxy) := by
  cases k with
  | dialRsp b resp pkt' =>
      obtain ⟨-, hr, htype, hpay, -⟩ := hk
      have hans : pkt'.answersDial = some r := by
        simp [Packet.answersDial, htype, hpay, hr]
      cases pd with
      | none =>
          simp only [AfterRemove.next] at h
          split at h
          · simp [sendBackendClose] at h
          · cases h
      | some p =>
          simp only [AfterRemove.next] at h
          split at h
          · next herr =>
              simp only [List.mem_singleton, Op.sendFrontend.injEq] at h
              rw [h.2.1]
              exact ⟨hans, fun _ => Or.inl (by simp [Packet.reportsConn, htype, hpay, herr])⟩
          · simp only [List.mem_cons, Op.sendFrontend.injEq, List.not_mem_nil, or_false,
              reduceCtorEq, false_or] at h
            rw [h.2.1, h.2.2]
            exact ⟨hans, fun hdone => by cases hdone⟩
  | dialCls pkt' =>
      have hans : pkt'.answersDial = some r := by simp [Packet.answersDial, hk.1, hk.2]
      cases pd with
      | none => cases h
      | some p =>
          simp only [AfterRemove.next, List.mem_singleton, Op.sendFrontend.injEq] at h
          rw [h.2.1]
          exact ⟨hans, fun _ => Or.inl (by simp [Packet.reportsConn, hk.1])⟩
  | sendFailed f' err =>
      cases pd with
      | none => cases h
      | some p =>
          simp only [AfterRemove.next, List.mem_cons, Op.sendFrontend.injEq, List.not_mem_nil,
            or_false, reduceCtorEq] at h
          rw [h.2.1]
          exact ⟨rfl, fun _ => Or.inr ⟨f', h.1, hk.2.1⟩⟩
  | cancel => cases h
  | timeout f' =>
      cases pd with
      | none => cases h
      | some p =>
          simp only [AfterRemove.next, List.mem_singleton, Op.sendFrontend.injEq] at h
          rw [h.2.1]
          exact ⟨rfl, fun _ => Or.inr ⟨f', h.1, hk.1⟩⟩
  | failDial b tell =>
      cases pd with
      | none => cases h
      | some p =>
          simp only [AfterRemove.next] at h
          split at h
          · simp at h
          · cases h
  | closeConn => cases h

/-- Where an operation that hands a packet to a frontend comes from: the packet
answers a dial, and no in-process dial learns of its connection without being
able to refuse it, or it belongs to a connection that was looked up, taken away
or torn down, or it is the error of a `CLOSE_REQ` that could not be sent. -/
theorem exec_sends (hop : op.Origin cfg s.log t)
    (hex : exec cfg s t c op = some (s₁, ops, start)) {f : Option Frontend} {pkt : Packet}
    {k : AfterFrontend} (h : .sendFrontend f pkt k ∈ ops) :
    (∃ r, pkt.answersDial = some r ∧ (k = .done → pkt.reportsConn = none ∨
      ∃ f', f = some f' ∧ f'.stream = .proxy)) ∨
    (∃ b cid p, op = .getFrontend b cid pkt ∧
      s.established.getFrontend (cfg.agentID b) cid = some p ∧ f = p.frontend) ∨
    (∃ a cid p, op = .removeEstablished a cid (.closeRsp pkt) ∧
      s.established.getFrontend a cid = some p ∧ f = p.frontend) ∨
    (∃ b cid p, op = .removeEstablishedForBackendConn b ∧
      s.established.getFrontend (cfg.agentID b) cid = some p ∧ p.backend = some b ∧
      f = p.frontend ∧ pkt = .ofCloseResponse ⟨"", p.connectID⟩) ∨
    ∃ b pkt' f' cid, op = .sendBackend b pkt' (.closeReq f' cid) ∧ f = some f' := by
  cases op with
  | pendingRemove r k' =>
      simp only [exec] at hex
      cases hex
      exact Or.inl ⟨r, AfterRemove.next_sends hop h⟩
  | pendingRemoveForBackend b =>
      simp only [exec] at hex
      split at hex <;> cases hex
      obtain ⟨p, -, heq⟩ := List.mem_map.mp h
      cases heq
      exact Or.inl ⟨p.dialID, rfl, fun _ => Or.inl rfl⟩
  | pendingRemoveForStream u =>
      simp only [exec] at hex
      split at hex <;> cases hex
      obtain ⟨p, -, heq⟩ := List.mem_map.mp h
      cases heq
  | removeEstablished a cid k' =>
      simp only [exec, Established.remove_fst] at hex
      cases hget : s.established.getFrontend a cid with
      | none =>
          rw [hget] at hex
          cases hex
          cases k' <;> simp [AfterEstablished.next, sendBackendClose] at h
      | some p =>
          rw [hget] at hex
          cases hex
          cases k' with
          | closeRsp pkt' =>
              simp only [AfterEstablished.next, List.mem_cons, reduceCtorEq, false_or,
                Op.sendFrontend.injEq, List.not_mem_nil, or_false] at h
              obtain ⟨rfl, rfl, -⟩ := h
              exact Or.inr (Or.inr (Or.inl ⟨a, cid, p, rfl, hget, rfl⟩))
          | _ => simp [AfterEstablished.next, sendBackendClose] at h
  | getFrontend b cid pkt' =>
      simp only [exec] at hex
      split at hex <;> cases hex
      · simp [sendBackendClose] at h
      · next p hget =>
          simp only [List.mem_singleton, Op.sendFrontend.injEq] at h
          obtain ⟨rfl, rfl, -⟩ := h
          exact Or.inr (Or.inl ⟨b, cid, p, rfl, hget, rfl⟩)
  | removeEstablishedForBackendConn b =>
      simp only [exec] at hex
      split at hex
      · cases hex
        cases h
      · next ret hret =>
          split at hex <;> cases hex
          next hperm =>
            rcases List.mem_append.mp h with h | h
            · split at h <;> simp at h
            · obtain ⟨p, hp, heq⟩ := List.mem_map.mp h
              cases heq
              obtain ⟨cid, hc, hb⟩ :=
                (Established.mem_removeForBackendConn hret).mp (hperm.subset hp)
              exact Or.inr (Or.inr (Or.inr (Or.inl ⟨b, cid, p, rfl, hc, hb, rfl, rfl⟩)))
  | removeEstablishedForStream u =>
      simp only [exec] at hex
      split at hex <;> cases hex
      obtain ⟨p, -, hp⟩ := List.mem_flatMap.mp h
      simp [sendBackendClose] at hp
  | sendFrontend f' pkt' k' =>
      simp only [exec] at hex
      repeat' split at hex
      all_goals cases hex
      · cases h
      · cases k' with
        | done => cases h
        | dialRsp b resp =>
            simp only [AfterFrontend.next] at h
            split at h <;> simp at h
  | sendBackend b pkt' k' =>
      simp only [exec] at hex
      repeat' split at hex
      all_goals cases hex
      · cases h
      · cases k' with
        | closeReq f' cid =>
            cases hok : c.ok <;> rw [hok] at h
            · simp only [AfterBackend.next, sendFrontendClose, List.mem_cons, reduceCtorEq,
                Op.sendFrontend.injEq, List.not_mem_nil, or_false] at h
              exact Or.inr (Or.inr (Or.inr (Or.inr ⟨_, pkt', f', cid, rfl, h.1⟩)))
            · simp [AfterBackend.next] at h
        | done => cases h
        | _ => cases hok : c.ok <;> rw [hok] at h <;> simp [AfterBackend.next] at h
  | selectBackend f' req pkt' =>
      simp only [exec] at hex
      repeat' split at hex
      all_goals cases hex
      · simp only [List.mem_cons, Op.sendFrontend.injEq, List.not_mem_nil, or_false,
          reduceCtorEq] at h
        rw [h.2.1]
        exact Or.inl ⟨req.random, rfl, fun _ => Or.inr ⟨f', h.1, hop.2.1⟩⟩
      · simp at h
  | awaitDial r =>
      simp only [exec] at hex
      split at hex <;> cases hex
      cases hcase : c.case <;> rw [hcase] at h <;> simp [DialCase.next] at h
  | closeMark r =>
      simp only [exec] at hex
      cases hex
      split at h <;> simp at h
  | _ =>
      simp only [exec] at hex
      repeat' split at hex
      all_goals cases hex
      all_goals simp at h

/-! ## The operations that follow -/

/-- Operations that begin the handling of a packet or a teardown. -/
def Op.outer : Op → Bool
  | .pendingRemove _ (.dialRsp _ _ _) => true
  | .pendingRemove _ (.dialCls _) => true
  | .pendingRemove _ .cancel => true
  | .pendingRemoveForBackend _ => true
  | .pendingRemoveForStream _ => true
  | .removeEstablished _ _ (.closeRsp _) => true
  | .getFrontend _ _ _ => true
  | .removeEstablishedForBackendConn _ => true
  | .removeEstablishedForStream _ => true
  | .exitDispatcher _ => true
  | .selectBackend _ _ _ => true
  | .handlerReturn _ => true
  | _ => false

theorem AfterRemove.next_inner (agentID : BackendId → AgentID) (r : DialID) (k : AfterRemove)
    (pd : Option ProxyClientConnection) :
    (k.next agentID r pd).all (fun o => !o.outer) = true := by
  cases k <;> cases pd <;> simp only [AfterRemove.next]
  case dialRsp.none => split <;> rfl
  case dialRsp.some => split <;> rfl
  case failDial.some => split <;> rfl
  all_goals rfl

/-- Only what arrives begins the handling of a packet or a teardown. -/
theorem exec_inner (hex : exec cfg s t c op = some (s₁, ops, start)) :
    ∀ o ∈ ops, o.outer = false := by
  suffices h : ops.all (fun o => !o.outer) = true by
    intro o ho
    simpa using List.all_eq_true.mp h o ho
  cases op with
  | pendingRemove r k =>
      simp only [exec] at hex
      cases hex
      exact AfterRemove.next_inner ..
  | pendingRemoveForBackend b =>
      simp only [exec] at hex
      split at hex <;> cases hex
      simp [Op.outer]
  | pendingRemoveForStream u =>
      simp only [exec] at hex
      split at hex <;> cases hex
      simp [sendBackendDialClose, Op.outer]
  | removeEstablished a cid k =>
      simp only [exec] at hex
      split at hex <;> cases hex <;> cases k <;> rfl
  | removeEstablishedForBackendConn b =>
      simp only [exec] at hex
      split at hex
      · cases hex
        rfl
      · split at hex <;> cases hex
        rw [List.all_append]
        split <;> simp [Op.outer]
  | removeEstablishedForStream u =>
      simp only [exec] at hex
      split at hex <;> cases hex
      simp [sendBackendClose, Op.outer]
  | sendFrontend f pkt k =>
      simp only [exec] at hex
      split at hex
      · cases hex
        rfl
      · split at hex <;> cases hex
        next ok _ => cases k <;> cases ok <;> rfl
  | sendBackend b pkt k =>
      simp only [exec] at hex
      split at hex
      · cases hex
        rfl
      · split at hex <;> cases hex
        cases k <;> cases c.ok <;> rfl
  | awaitDial r =>
      simp only [exec] at hex
      split at hex <;> cases hex
      cases c.case <;> rfl
  | closeMark r =>
      simp only [exec] at hex
      cases hex
      split <;> rfl
  | _ =>
      simp only [exec] at hex
      repeat' split at hex
      all_goals cases hex
      all_goals rfl

/-- The only goroutine an operation starts is the timer of a dial. -/
theorem exec_start (hex : exec cfg s t c op = some (s₁, ops, start)) :
    start = none ∨ ∃ r b f, start = some (.timer r, [.waitTimer r b f]) := by
  cases op with
  | startPendingDialTimeout r b f =>
      simp only [exec] at hex
      split at hex <;> cases hex
      · exact Or.inr ⟨r, b, f, rfl⟩
      · exact Or.inl rfl
  | _ =>
      simp only [exec] at hex
      repeat' split at hex
      all_goals cases hex
      all_goals exact Or.inl rfl

/-! ## What arrives -/

/-- The events that come from outside. -/
def Event.arrives : Event → Bool
  | .fromBackend _ _ => true
  | .fromFrontend _ _ => true
  | .dialing _ _ _ => true
  | .frontendGone _ => true
  | _ => false

/-- An arrival adds at most one event to the history and leaves the tables alone. -/
theorem arrive_adds {a : ServerAction} (harr : arrive cfg s a = some (s₁, start)) :
    s₁.pendingDial = s.pendingDial ∧ s₁.established = s.established ∧
      (s₁.log = s.log ∨ ∃ e, e.arrives = true ∧ s₁.log = e :: s.log) := by
  cases a <;> simp only [arrive] at harr <;> repeat' split at harr
  all_goals cases harr
  all_goals first
    | exact ⟨rfl, rfl, Or.inl rfl⟩
    | exact ⟨rfl, rfl, Or.inr ⟨_, rfl, rfl⟩⟩

theorem arrive_event {a : ServerAction} (harr : arrive cfg s a = some (s₁, start)) {e : Event}
    (he : e ∈ s₁.log) : e ∈ s.log ∨ e.arrives = true := by
  rcases (arrive_adds harr).2.2 with hlog | ⟨e', he', hlog⟩
  · exact Or.inl (hlog ▸ he)
  · rw [hlog] at he
    rcases List.mem_cons.mp he with rfl | he
    · exact Or.inr he'
    · exact Or.inl he

/-- The event an arrival adds is a packet of an agent exactly when one is delivered. -/
theorem arrive_new {a : ServerAction} (harr : arrive cfg s a = some (s₁, start)) :
    s₁.log = s.log ∨ (∃ b pkt, a = .deliver b pkt ∧ s₁.log = .fromBackend b pkt :: s.log) ∨
      ∃ e, s₁.log = e :: s.log ∧ ∀ b pkt, e ≠ .fromBackend b pkt := by
  cases a <;> simp only [arrive] at harr <;> repeat' split at harr
  all_goals cases harr
  all_goals first
    | exact Or.inl rfl
    | exact Or.inr (Or.inl ⟨_, _, rfl, rfl⟩)
    | exact Or.inr (Or.inr ⟨_, rfl, fun _ _ h => by cases h⟩)

/-- A packet from an agent enters the history when it is delivered. -/
theorem arrive_fromBackend {a : ServerAction} (harr : arrive cfg s a = some (s₁, start))
    {b : BackendId} {pkt : Packet} (h : .fromBackend b pkt ∈ s₁.log) :
    .fromBackend b pkt ∈ s.log ∨ a = .deliver b pkt := by
  cases a <;> simp only [arrive] at harr <;> repeat' split at harr
  all_goals cases harr
  all_goals first
    | exact Or.inl h
    | (rcases List.mem_cons.mp h with heq | h
       · first
           | (cases heq; done)
           | (cases heq; exact Or.inr rfl)
       · exact Or.inl h)

/-- A packet from a frontend enters the history when it is received. -/
theorem arrive_fromFrontend {a : ServerAction} (harr : arrive cfg s a = some (s₁, start))
    {f : Frontend} {pkt : Packet} (h : .fromFrontend f pkt ∈ s₁.log) :
    .fromFrontend f pkt ∈ s.log ∨ ∃ u, a = .receive u pkt ∧ f = proxyFrontend u := by
  cases a <;> simp only [arrive] at harr <;> repeat' split at harr
  all_goals cases harr
  all_goals first
    | exact Or.inl h
    | (rcases List.mem_cons.mp h with heq | h
       · first
           | (cases heq; done)
           | (cases heq; exact Or.inr ⟨_, rfl, rfl⟩)
       · exact Or.inl h)

/-- A `DIAL_REQ` of a frontend is dispatched by choosing a backend. -/
theorem arrive_request {u : StreamUID} {pkt : Packet} {r : DialID}
    (harr : arrive cfg s (.receive u pkt) = some (s₁, start)) (hr : pkt.requestsDial = some r) :
    ∃ req, req.random = r ∧
      start = some (.proxy u, [.selectBackend (proxyFrontend u) req pkt]) := by
  obtain ⟨req, htype, hpay, rfl⟩ : ∃ req, pkt.type = .dialReq ∧
      pkt.payload = some (.dialRequest req) ∧ req.random = r := by
    unfold Packet.requestsDial at hr
    split at hr
    · next req htype hpay =>
        cases hr
        exact ⟨req, htype, hpay, rfl⟩
    · cases hr
  have hserve : ∀ st, serveRecvFrontend (proxyFrontend u) st pkt =
      some (st, [.selectBackend (proxyFrontend u) req pkt]) := by
    intro st
    simp [serveRecvFrontend, htype, Packet.getDialRequest, hpay]
  simp only [arrive, hserve] at harr
  split at harr
  · split at harr
    · cases harr
    · cases harr
      exact ⟨req, rfl, rfl⟩
  · cases harr

/-- What the handler of a frontend stream is given to do. -/
theorem arrive_proxy {a : ServerAction} {u : StreamUID}
    (harr : arrive cfg s a = some (s₁, some (.proxy u, ops))) :
    (∃ pkt, a = .receive u pkt ∧ (ops = [] ∨ ∃ st st',
      serveRecvFrontend (proxyFrontend u) st pkt = some (st', ops))) ∨
    (a = .shutdown u ∧ .frontendGone u ∈ s₁.log ∧ ops =
      [.pendingRemoveForStream u, .removeEstablishedForStream u, .handlerReturn u]) := by
  cases a <;> simp only [arrive] at harr <;> repeat' split at harr
  all_goals cases harr
  all_goals first
    | exact Or.inl ⟨_, rfl, Or.inl rfl⟩
    | exact Or.inr ⟨rfl, List.mem_cons_self, rfl⟩
    | (next hst => exact Or.inl ⟨_, rfl, Or.inr ⟨_, _, hst⟩⟩)

/-- Nothing that arrives makes a dispatcher exit. -/
theorem arrive_exited {a : ServerAction} (harr : arrive cfg s a = some (s₁, start))
    (b : BackendId) : (s₁.backends b).exited = (s.backends b).exited := by
  have set : ∀ (b' : BackendId) (x : BackendState), x.exited = (s.backends b').exited →
      (Function.update s.backends b' x b).exited = (s.backends b).exited := by
    intro b' x hx
    by_cases hb : b = b'
    · subst hb
      rw [Function.update_self]
      exact hx
    · rw [Function.update_of_ne hb]
  cases a <;> simp only [arrive] at harr <;> repeat' split at harr
  all_goals cases harr
  all_goals first
    | rfl
    | exact set _ _ rfl

/-- What a dispatcher is given to do. -/
theorem arrive_dispatcher {a : ServerAction} {b : BackendId}
    (harr : arrive cfg s a = some (s₁, some (.dispatcher b, ops))) :
    (∃ pkt, a = .deliver b pkt ∧ (serveRecvBackend cfg b pkt = some ops ∨
      (serveRecvBackend cfg b pkt = none ∧ ops = []))) ∨
    (a = .drained b ∧ ops =
      [.pendingRemoveForBackend b, .removeEstablishedForBackendConn b, .exitDispatcher b]) := by
  cases a with
  | deliver b' pkt =>
      simp only [arrive] at harr
      split at harr
      · split at harr
        · next hnone =>
            cases harr
            exact Or.inl ⟨pkt, rfl, Or.inr ⟨hnone, rfl⟩⟩
        · next hsome =>
            cases harr
            exact Or.inl ⟨pkt, rfl, Or.inl hsome⟩
      · cases harr
  | drained b' =>
      simp only [arrive] at harr
      split at harr <;> cases harr
      exact Or.inr ⟨rfl, rfl⟩
  | _ =>
      simp only [arrive] at harr
      repeat' split at harr
      all_goals cases harr

/-- A packet that is delivered is dispatched by an idle dispatcher. -/
theorem arrive_deliver {b : BackendId} {pkt : Packet}
    (harr : arrive cfg s (.deliver b pkt) = some (s₁, start)) :
    ∃ ops, start = some (.dispatcher b, ops) ∧ s₁.log = .fromBackend b pkt :: s.log ∧
      (serveRecvBackend cfg b pkt = some ops ∨
        (serveRecvBackend cfg b pkt = none ∧ ops = [])) := by
  simp only [arrive] at harr
  split at harr
  · split at harr
    · next hnone =>
        cases harr
        exact ⟨[], rfl, rfl, Or.inr ⟨hnone, rfl⟩⟩
    · next ops hops =>
        cases harr
        exact ⟨ops, rfl, rfl, Or.inl hops⟩
  · cases harr

/-- The dispatch of a successful `DIAL_RSP`. -/
theorem serveRecvBackend_report {b : BackendId} {pkt : Packet} {r : DialID} {cid : ConnectID}
    (h : pkt.reportsConn = some (r, cid)) :
    ∃ resp, resp.connectID = cid ∧ resp.error = "" ∧
      serveRecvBackend cfg b pkt = some [.pendingRemove r (.dialRsp b resp pkt)] := by
  unfold Packet.reportsConn at h
  split at h
  · next resp htype hpay =>
      split at h
      · next herr =>
          cases h
          exact ⟨resp, rfl, herr, by
            simp [serveRecvBackend, htype, Packet.getDialResponse, hpay]⟩
      · cases h
  · cases h

/-- A packet of an agent is dispatched by an operation on a table. -/
theorem serveRecvBackend_cases {b : BackendId} {pkt : Packet}
    (h : serveRecvBackend cfg b pkt = some ops) :
    ops = [] ∨
    (∃ resp, pkt.type = .dialRsp ∧ pkt.payload = some (.dialResponse resp) ∧
      ops = [.pendingRemove resp.random (.dialRsp b resp pkt)]) ∨
    (∃ r, pkt.type = .dialCls ∧ pkt.payload = some (.closeDial ⟨r⟩) ∧
      ops = [.pendingRemove r (.dialCls pkt)]) ∨
    (∃ cid, pkt.type = .data ∧ pkt.belongsTo = some cid ∧ ops = [.getFrontend b cid pkt]) ∨
    ∃ cid, pkt.type = .closeRsp ∧ pkt.belongsTo = some cid ∧
      ops = [.removeEstablished (cfg.agentID b) cid (.closeRsp pkt)] := by
  simp only [serveRecvBackend] at h
  split at h
  · next htype =>
      obtain ⟨resp, hr, rfl⟩ := Option.map_eq_some_iff.mp h
      rw [Packet.getDialResponse_iff] at hr
      exact Or.inr (Or.inl ⟨resp, htype, hr, rfl⟩)
  · next htype =>
      obtain ⟨resp, hr, rfl⟩ := Option.map_eq_some_iff.mp h
      rw [Packet.getCloseDial_iff] at hr
      exact Or.inr (Or.inr (Or.inl ⟨resp.random, htype, hr, rfl⟩))
  · next htype =>
      obtain ⟨resp, hr, rfl⟩ := Option.map_eq_some_iff.mp h
      rw [Packet.getData_iff] at hr
      split
      · exact Or.inl rfl
      · exact Or.inr (Or.inr (Or.inr (Or.inl ⟨resp.connectID, htype,
          by simp [Packet.belongsTo, htype, hr], rfl⟩)))
  · next htype =>
      obtain ⟨resp, hr, rfl⟩ := Option.map_eq_some_iff.mp h
      rw [Packet.getCloseResponse_iff] at hr
      exact Or.inr (Or.inr (Or.inr (Or.inr ⟨resp.connectID, htype,
        by simp [Packet.belongsTo, htype, hr], rfl⟩)))
  · cases h
    exact Or.inl rfl
  · cases h
    exact Or.inl rfl

end Exec

end Konnectivity
