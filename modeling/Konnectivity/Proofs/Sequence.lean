import Konnectivity.Proofs.Effects

/-!
# What comes after what inside a goroutine

A goroutine of the server works through one packet or one call at a time, so
what follows an operation in its list is what its code path still has to do:
the `DIAL_REQ` is sent after the dial is entered, a connection is handed over
after it is established, `Close` has finished when `closeFinish` is reached.
The invariants of the following files read these orders off the list.
-/

namespace Konnectivity

open Lib

/-- What is left of a call of `closeOnce.Do`, after its function. -/
def Returning (r : DialID) (rest : List Op) : Prop :=
  rest = [] ∨ rest = [.dialReturn r false]

/-- What is left of a call of `closeOnce.Do`, inside its function. -/
def Finishing (r : DialID) (rest : List Op) : Prop :=
  ∃ tail, rest = .closeFinish r :: tail ∧ Returning r tail

/-- What follows an operation. -/
def Op.Then : Op → List Op → Prop
  | .pendingAdd r p, rest => ∃ f b pkt, p.frontend = some f ∧ p.backend = some b ∧
      ((f.stream = .proxy ∧ rest = [.sendBackend (some b) pkt (.dialReq f r)]) ∨
        (f.stream = .serverConn r ∧ rest = [.sendBackend (some b) pkt (.dialBackend r)]))
  | .pendingRemove _ (.dialRsp _ _ _), rest => rest = []
  | .pendingRemove r (.failDial _ _), rest => rest = [.closeOnce r, .dialReturn r false]
  | .pendingRemove r .closeConn, rest => Finishing r rest
  | .addEstablished b c p, rest => ∃ pkt resp, resp.connectID = c ∧ resp.random = p.dialID ∧
      rest = [.closeWithBackend p.frontend b, .sendFrontend p.frontend pkt (.dialRsp b resp)]
  | .closeWithBackend f b, rest => ∃ pkt resp, rest = [.sendFrontend f pkt (.dialRsp b resp)]
  | .removeEstablished _ _ (.closeConn _ r), rest => Finishing r rest
  | .sendFrontend _ _ (.dialRsp _ _), rest => rest = []
  | .sendBackend _ _ (.dialReq _ _), rest => rest = []
  | .sendBackend _ _ (.dialBackend _), rest => rest = []
  | .queueSend _ pkt, rest => pkt.type = .closeReq → ∃ r, Finishing r rest
  | .selectBackend _ _ _, rest => rest = []
  | .exitDispatcher _, rest => rest = []
  | .awaitDial _, rest => rest = []
  | .closeOnce r, rest => Returning r rest
  | .closeMark r, rest => Finishing r rest
  | .closeFinish r, rest => Returning r rest
  | .dialReturn _ _, rest => rest = []
  | _, _ => True

/-- The operations of `startPendingDialTimeout`. -/
def Op.inTimer : Op → Bool
  | .waitTimer _ _ _ => true
  | .pendingRemove _ (.timeout _) => true
  | .sendFrontend _ _ .done => true
  | _ => false

theorem Op.Then.of_inTimer {op : Op} (h : op.inTimer = true) (rest : List Op) :
    op.Then rest := by
  cases op with
  | pendingRemove r k => cases k <;> trivial
  | sendFrontend f pkt k => cases k <;> trivial
  | waitTimer r b f => trivial
  | _ => cases h

section Exec

variable {cfg : ServerConfig} {s s₁ : ServerState} {t : Tid} {c : Choice} {op : Op}
  {ops rest : List Op} {start : Option (Tid × List Op)}

theorem AfterRemove.next_then {r : DialID} {k : AfterRemove} (hk : k.Origin s.log t r)
    {pd : Option ProxyClientConnection} (hpd : ∀ p, pd = some p → p.dialID = r)
    (h : (Op.pendingRemove r k).Then rest) (hrest : Pool.Each Op.Then rest) :
    Pool.Each Op.Then (k.next cfg.agentID r pd ++ rest) := by
  cases k with
  | dialRsp b resp pkt =>
      cases pd with
      | none =>
          simp only [AfterRemove.next]
          split
          · exact ⟨trivial, hrest⟩
          · exact hrest
      | some p =>
          obtain rfl : rest = [] := h
          obtain ⟨-, hr, -⟩ := hk
          simp only [AfterRemove.next]
          split
          · exact ⟨trivial, trivial⟩
          · exact ⟨⟨pkt, resp, rfl, by rw [hr, hpd p rfl], rfl⟩, ⟨pkt, resp, rfl⟩, rfl, trivial⟩
  | dialCls pkt =>
      cases pd with
      | none => exact hrest
      | some p => exact ⟨trivial, hrest⟩
  | sendFailed f err =>
      cases pd with
      | none => exact hrest
      | some p => exact ⟨trivial, trivial, hrest⟩
  | cancel => exact hrest
  | timeout f =>
      cases pd with
      | none => exact hrest
      | some p => exact ⟨trivial, hrest⟩
  | failDial b tell =>
      cases pd with
      | none => exact hrest
      | some p =>
          simp only [AfterRemove.next]
          split
          · exact ⟨(fun hc => by cases hc), hrest⟩
          · exact hrest
  | closeConn => exact hrest

theorem AfterEstablished.next_then {a : AgentID} {cid : ConnectID} {k : AfterEstablished}
    (p : Option ProxyClientConnection) (h : (Op.removeEstablished a cid k).Then rest)
    (hrest : Pool.Each Op.Then rest) : Pool.Each Op.Then (k.next cid p ++ rest) := by
  cases k with
  | undo b r =>
      cases p with
      | none => exact ⟨trivial, hrest⟩
      | some p => exact ⟨trivial, trivial, hrest⟩
  | closeRsp pkt =>
      cases p with
      | none => exact hrest
      | some p => exact ⟨trivial, trivial, hrest⟩
  | closeConn b r =>
      cases p with
      | none => exact hrest
      | some p => exact ⟨trivial, fun _ => ⟨r, h⟩, hrest⟩

theorem AfterBackend.next_then (b : BackendId) (err : String) {b' : Option BackendId}
    {pkt : Packet} {k : AfterBackend} {ok : Bool} (h : (Op.sendBackend b' pkt k).Then rest)
    (hrest : Pool.Each Op.Then rest) : Pool.Each Op.Then (k.next b err ok ++ rest) := by
  cases k with
  | done => cases ok <;> exact hrest
  | dialReq f r => cases ok <;> exact ⟨trivial, hrest⟩
  | closeReq f cid =>
      cases ok
      · exact ⟨trivial, trivial, hrest⟩
      · exact ⟨trivial, hrest⟩
  | dialBackend r =>
      obtain rfl : rest = [] := h
      cases ok
      · exact ⟨rfl, Or.inr rfl, rfl, trivial⟩
      · exact ⟨rfl, trivial⟩

theorem DialCase.next_then (b : BackendId) (r : DialID) (k : DialCase) :
    Pool.Each Op.Then (k.next b r) := by
  cases k with
  | connected => exact ⟨rfl, trivial⟩
  | dialErr => exact ⟨Or.inr rfl, rfl, trivial⟩
  | _ => exact ⟨rfl, Or.inr rfl, rfl, trivial⟩

/-- A list of operations after which nothing particular has to come. -/
theorem each_free {ops : List Op} (hfree : ∀ o ∈ ops, ∀ l, o.Then l)
    (hrest : Pool.Each Op.Then rest) : Pool.Each Op.Then (ops ++ rest) := by
  induction ops with
  | nil => exact hrest
  | cons o ops ih =>
      exact ⟨hfree o List.mem_cons_self _, ih fun x hx => hfree x (List.mem_cons_of_mem _ hx)⟩

theorem exec_then (hG : SharedOrigin cfg s) (hop : op.Origin cfg s.log t)
    (h : op.Then rest) (hrest : Pool.Each Op.Then rest)
    (hex : exec cfg s t c op = some (s₁, ops, start)) : Pool.Each Op.Then (ops ++ rest) := by
  cases op with
  | pendingRemove r k =>
      simp only [exec] at hex
      cases hex
      refine AfterRemove.next_then hop (fun p hp => ?_) h hrest
      rw [PendingDialManager.remove_fst] at hp
      exact (hG.pending r p hp).1
  | pendingRemoveForBackend b =>
      simp only [exec] at hex
      split at hex <;> cases hex
      refine each_free (fun o ho l => ?_) hrest
      obtain ⟨p, -, rfl⟩ := List.mem_map.mp ho
      trivial
  | pendingRemoveForStream u =>
      simp only [exec] at hex
      split at hex <;> cases hex
      refine each_free (fun o ho l => ?_) hrest
      obtain ⟨p, -, rfl⟩ := List.mem_map.mp ho
      trivial
  | removeEstablished a cid k =>
      simp only [exec] at hex
      split at hex <;> cases hex
      · exact AfterEstablished.next_then none h hrest
      · exact AfterEstablished.next_then (some _) h hrest
  | getFrontend b cid pkt =>
      simp only [exec] at hex
      split at hex <;> cases hex <;> exact ⟨trivial, hrest⟩
  | removeEstablishedForBackendConn b =>
      simp only [exec] at hex
      split at hex
      · cases hex
        exact hrest
      · split at hex <;> cases hex
        rw [List.append_assoc]
        refine each_free (fun o ho l => ?_) (each_free (fun o ho l => ?_) hrest)
        · split at ho
          · rw [List.mem_singleton] at ho
            subst ho
            trivial
          · cases ho
        · obtain ⟨p, -, rfl⟩ := List.mem_map.mp ho
          trivial
  | removeEstablishedForStream u =>
      simp only [exec] at hex
      split at hex <;> cases hex
      refine each_free (fun o ho l => ?_) hrest
      obtain ⟨p, -, ho⟩ := List.mem_flatMap.mp ho
      simp only [List.mem_cons, List.not_mem_nil, or_false] at ho
      rcases ho with rfl | rfl <;> trivial
  | sendFrontend f pkt k =>
      simp only [exec] at hex
      split at hex
      · cases hex
        exact hrest
      · split at hex <;> cases hex
        cases k with
        | done => exact hrest
        | dialRsp b resp =>
            simp only [AfterFrontend.next]
            split <;> first | exact hrest | exact ⟨trivial, hrest⟩
  | sendBackend b pkt k =>
      simp only [exec] at hex
      split at hex
      · cases hex
        exact hrest
      · split at hex <;> cases hex
        exact AfterBackend.next_then _ _ h hrest
  | selectBackend f req pkt =>
      obtain rfl : rest = [] := h
      simp only [exec] at hex
      split at hex
      · cases hex
        exact ⟨trivial, trivial, trivial⟩
      · split at hex <;> cases hex
        exact ⟨⟨f, _, pkt, rfl, rfl, Or.inl ⟨hop.2.1, rfl⟩⟩, rfl, trivial⟩
  | waitTimer r b f =>
      simp only [exec] at hex
      split at hex
      · cases hex
        exact ⟨trivial, hrest⟩
      · split at hex <;> cases hex
        exact hrest
  | awaitDial r =>
      obtain rfl : rest = [] := h
      simp only [exec] at hex
      split at hex <;> cases hex
      rw [List.append_nil]
      exact DialCase.next_then ..
  | closeOnce r =>
      simp only [exec] at hex
      split at hex
      · cases hex
        exact ⟨⟨rest, rfl, h⟩, h, hrest⟩
      · split at hex <;> cases hex
        exact hrest
  | closeMark r =>
      simp only [exec] at hex
      cases hex
      split
      · exact ⟨h, hrest⟩
      · exact ⟨h, hrest⟩
  | addEstablished b cid p =>
      simp only [exec] at hex
      cases hex
      exact hrest
  | _ =>
      simp only [exec] at hex
      repeat' split at hex
      all_goals cases hex
      all_goals exact hrest

theorem exec_inTimer (h : op.inTimer = true)
    (hex : exec cfg s t c op = some (s₁, ops, start)) : ∀ o ∈ ops, o.inTimer = true := by
  cases op with
  | pendingRemove r k =>
      cases k with
      | timeout f =>
          simp only [exec] at hex
          cases hex
          rw [PendingDialManager.remove_fst]
          cases s.pendingDial.pendingDial.lookup r with
          | none => exact fun o ho => by cases ho
          | some p =>
              intro o ho
              rw [List.mem_singleton.mp ho]
              rfl
      | _ => cases h
  | sendFrontend f pkt k =>
      cases k with
      | done =>
          simp only [exec] at hex
          repeat' split at hex
          all_goals cases hex
          all_goals exact fun o ho => by cases ho
      | dialRsp b resp => cases h
  | waitTimer r b f =>
      simp only [exec] at hex
      repeat' split at hex
      all_goals cases hex
      · intro o ho
        rw [List.mem_singleton.mp ho]
        rfl
      · exact fun o ho => by cases ho
  | _ => cases h

theorem serveRecvBackend_then {b : BackendId} {pkt : Packet}
    (h : serveRecvBackend cfg b pkt = some ops) : Pool.Each Op.Then ops := by
  simp only [serveRecvBackend] at h
  split at h
  · obtain ⟨resp, -, rfl⟩ := Option.map_eq_some_iff.mp h
    exact ⟨rfl, trivial⟩
  · obtain ⟨resp, -, rfl⟩ := Option.map_eq_some_iff.mp h
    exact ⟨trivial, trivial⟩
  · obtain ⟨resp, -, rfl⟩ := Option.map_eq_some_iff.mp h
    split
    · trivial
    · exact ⟨trivial, trivial⟩
  · obtain ⟨resp, -, rfl⟩ := Option.map_eq_some_iff.mp h
    exact ⟨trivial, trivial⟩
  · cases h
    trivial
  · cases h
    trivial

theorem serveRecvFrontend_then {f : Frontend} {st st' : StreamState} {pkt : Packet}
    (h : serveRecvFrontend f st pkt = some (st', ops)) : Pool.Each Op.Then ops := by
  simp only [serveRecvFrontend] at h
  split at h
  · obtain ⟨req, -, heq⟩ := Option.map_eq_some_iff.mp h
    cases heq
    exact ⟨rfl, trivial⟩
  · obtain ⟨req, -, heq⟩ := Option.map_eq_some_iff.mp h
    split at heq <;> cases heq <;> exact ⟨trivial, trivial⟩
  · obtain ⟨req, -, heq⟩ := Option.map_eq_some_iff.mp h
    cases heq
    exact ⟨trivial, trivial⟩
  · obtain ⟨req, -, heq⟩ := Option.map_eq_some_iff.mp h
    repeat' split at heq
    all_goals cases heq
    all_goals repeat' constructor
  · cases h
    trivial

theorem arrive_then {a : ServerAction}
    (harr : arrive cfg s a = some (s₁, some (t, ops))) :
    Pool.Each Op.Then ops ∧ ∀ r, t ≠ .timer r := by
  cases a with
  | deliver b pkt =>
      simp only [arrive] at harr
      split at harr
      · split at harr
        · cases harr
          exact ⟨trivial, by simp⟩
        · next hops =>
            cases harr
            exact ⟨serveRecvBackend_then hops, by simp⟩
      · cases harr
  | receive u pkt =>
      simp only [arrive] at harr
      split at harr
      · split at harr
        · cases harr
        · split at harr
          · cases harr
            exact ⟨trivial, by simp⟩
          · next hops =>
              cases harr
              exact ⟨serveRecvFrontend_then hops, by simp⟩
      · cases harr
  | dial u r b network address =>
      simp only [arrive] at harr
      split at harr <;> cases harr
      exact ⟨⟨⟨_, b, _, rfl, rfl, Or.inr ⟨rfl, rfl⟩⟩, rfl, trivial⟩, by simp⟩
  | drained b =>
      simp only [arrive] at harr
      split at harr <;> cases harr
      exact ⟨⟨trivial, trivial, rfl, trivial⟩, by simp⟩
  | shutdown u =>
      simp only [arrive] at harr
      split at harr <;> cases harr
      exact ⟨⟨trivial, trivial, trivial, trivial⟩, by simp⟩
  | userClose r =>
      simp only [arrive] at harr
      split at harr <;> cases harr
      exact ⟨⟨Or.inl rfl, trivial⟩, by simp⟩
  | watchClose r =>
      simp only [arrive] at harr
      split at harr
      · cases harr
      · split at harr <;> cases harr
        exact ⟨⟨Or.inl rfl, trivial⟩, by simp⟩
  | _ =>
      simp only [arrive] at harr
      split at harr <;> cases harr

end Exec

/-- In every state a server reaches, each goroutine is somewhere in one of the
code paths. -/
theorem server_then {cfg : ServerConfig} {okExec : ServerState → Tid → Choice → Op → Prop}
    {okArrive : ServerState → ServerAction → Prop} {s : System.State ServerState Tid Op}
    (h : Reach (server cfg).step (System.Allowed okExec okArrive) newServer s) (t : Tid) :
    Pool.Each Op.Then (s.threads t) := by
  let R : Tid → Op → List Op → Prop :=
    fun t o rest => o.Then rest ∧ ((∃ r, t = .timer r) → o.inTimer = true)
  have split : ∀ {t : Tid} {l : List Op}, Pool.Each (R t) l ↔
      Pool.Each Op.Then l ∧ ((∃ r, t = .timer r) → ∀ o ∈ l, o.inTimer = true) := by
    intro t l
    induction l with
    | nil => exact ⟨fun _ => ⟨trivial, fun _ o ho => nomatch ho⟩, fun _ => trivial⟩
    | cons o l ih =>
        constructor
        · rintro ⟨⟨h1, h2⟩, h3⟩
          obtain ⟨h4, h5⟩ := ih.mp h3
          refine ⟨⟨h1, h4⟩, fun ht x hx => ?_⟩
          rcases List.mem_cons.mp hx with rfl | hx
          · exact h2 ht
          · exact h5 ht x hx
        · rintro ⟨⟨h1, h2⟩, h3⟩
          exact ⟨⟨h1, fun ht => h3 ht o List.mem_cons_self⟩,
            ih.mpr ⟨h2, fun ht x hx => h3 ht x (List.mem_cons_of_mem _ hx)⟩⟩
  refine (split.mp (System.sequence R ?_ ?_ ?_ h t)).1
  · exact fun t => trivial
  · intro s a s₁ t ops _ harr
    obtain ⟨h1, h2⟩ := arrive_then harr
    exact split.mpr ⟨h1, fun ⟨r, hr⟩ => absurd hr (h2 r)⟩
  · intro s t c o rest s₁ ops start hr ht ho hrest hex
    obtain ⟨hG, hP⟩ := server_origin hr
    have hop := hP t o (by rw [ht]; exact List.mem_cons_self)
    obtain ⟨h1, h2⟩ := split.mp hrest
    refine ⟨split.mpr ⟨exec_then hG hop ho.1 h1 hex, fun htimer x hx => ?_⟩, ?_⟩
    · rcases List.mem_append.mp hx with hx | hx
      · exact exec_inTimer (ho.2 htimer) hex x hx
      · exact h2 htimer x hx
    · intro t' ops' hst cur hcur
      rcases exec_start hex with hnone | ⟨r, b, f, hstart⟩
      · rw [hnone] at hst
        cases hst
      · rw [hstart] at hst
        cases hst
        obtain ⟨h3, h4⟩ := split.mp hcur
        have htimer : ∀ o ∈ cur, o.inTimer = true := h4 ⟨r, rfl⟩
        refine split.mpr ⟨each_free (fun o ho l => .of_inTimer (htimer o ho) l)
          ⟨trivial, trivial⟩, fun _ o ho => ?_⟩
        rcases List.mem_append.mp ho with ho | ho
        · exact htimer o ho
        · rw [List.mem_singleton.mp ho]
          rfl

/-! ## Invariants of the server -/

/-- The ways a step of the server goes: an operation is performed, the timer of
a dial starts after that, or something arrives. -/
theorem server_invariant {cfg : ServerConfig} {okExec : ServerState → Tid → Choice → Op → Prop}
    {okArrive : ServerState → ServerAction → Prop} {s : System.State ServerState Tid Op}
    (I : System.State ServerState Tid Op → Prop) (h0 : I newServer)
    (hexec : ∀ {s : System.State ServerState Tid Op} {t : Tid} {c : Choice} {op : Op}
      {rest : List Op} {s₁ : ServerState} {ops : List Op} {start : Option (Tid × List Op)},
      Reach (server cfg).step (System.Allowed okExec okArrive) newServer s → I s →
      s.shared.panic = none → s.threads t = op :: rest → okExec s.shared t c op →
      exec cfg s.shared t c op = some (s₁, ops, start) →
      I ⟨s₁, Function.update s.threads t (ops ++ rest)⟩)
    (htimer : ∀ {s : System.State ServerState Tid Op} {r : DialID} {b : BackendId} {f : Frontend},
      I s → I ⟨s.shared, Function.update s.threads (.timer r)
        (s.threads (.timer r) ++ [Op.waitTimer r b f])⟩)
    (harrive : ∀ {s : System.State ServerState Tid Op} {a : ServerAction} {s₁ : ServerState}
      {start : Option (Tid × List Op)} {threads : Tid → List Op},
      Reach (server cfg).step (System.Allowed okExec okArrive) newServer s → I s →
      s.shared.panic = none → okArrive s.shared a → arrive cfg s.shared a = some (s₁, start) →
      Pool.Arrived s.threads start threads → I ⟨s₁, threads⟩)
    (h : Reach (server cfg).step (System.Allowed okExec okArrive) newServer s) : I s := by
  refine Reach.invariant I h0 ?_ h
  intro s a s' hr hinv hok hst
  have hrun : s.shared.panic = none := by
    have := System.step_halted hst
    simpa [server] using this
  rcases System.step_cases hst with ⟨t, c, o, rest, s₁, ops, rfl, ht, hex, rfl⟩ |
    ⟨t, c, o, rest, s₁, ops, t', ops', rfl, ht, hex, rfl⟩ | ⟨x, s₁, rfl, harr, rfl⟩ |
    ⟨x, s₁, t, ops, rfl, harr, ht, rfl⟩
  · exact hexec hr hinv hrun ht (hok o rest ht) hex
  · have hmid := hexec hr hinv hrun ht (hok o rest ht) hex
    rcases exec_start hex with hnone | ⟨r, b, f, hstart⟩
    · cases hnone
    · cases hstart
      exact htimer hmid
  · exact harrive hr hinv hrun hok harr rfl
  · exact harrive hr hinv hrun hok harr ⟨ht, rfl⟩

/-- An operation of the pool before the timer of a dial starts. -/
theorem mem_timer {threads : Tid → List Op} {r r' : DialID} {b : BackendId} {f : Frontend}
    {t : Tid} {o : Op}
    (h : o ∈ Function.update threads (.timer r) (threads (.timer r) ++ [Op.waitTimer r' b f]) t) :
    o ∈ threads t ∨ o = .waitTimer r' b f := by
  by_cases ht : t = .timer r
  · subst ht
    rw [Function.update_self] at h
    rcases List.mem_append.mp h with h | h
    · exact Or.inl h
    · exact Or.inr (List.mem_singleton.mp h)
  · rw [Function.update_of_ne ht] at h
    exact Or.inl h

theorem mem_timer_of_mem {threads : Tid → List Op} {r : DialID} {ops : List Op} {t : Tid}
    {o : Op} (h : o ∈ threads t) :
    o ∈ Function.update threads (.timer r) (threads (.timer r) ++ ops) t := by
  by_cases ht : t = .timer r
  · subst ht
    rw [Function.update_self]
    exact List.mem_append_left _ h
  · rw [Function.update_of_ne ht]
    exact h

end Konnectivity
