import Konnectivity.Proofs.Closing

/-!
# Frontends that go away during a dial

A connection moves from the pending map to `established` in two steps, and
the cleanup of a frontend stream scans the two maps in two others. When both
scans fall between the two steps, the connection is found in neither map; it
is the failing `Send` of the `DIAL_RSP` that takes the entry away again. A
`Send` may however succeed until the handler has returned, and then the entry
stays for good.
-/

namespace Konnectivity

open Lib

/-! ## Connections that are being handed over -/

/-- The dispatcher that entered the connection has yet to hand it over, or to
take it away again. -/
def Handing (cfg : ServerConfig) (threads : Tid → List Op) (a : AgentID) (c : ConnectID)
    (p : ProxyClientConnection) : Prop :=
  ∃ b, cfg.agentID b = a ∧ ∃ o ∈ threads (.dispatcher b),
    (∃ pkt resp, o = .sendFrontend p.frontend pkt (.dialRsp b resp) ∧
      resp.random = p.dialID ∧ resp.connectID = c) ∨
    o = .removeEstablished a c (.undo b p.dialID)

section Handing

variable {cfg : ServerConfig} {s : System.State ServerState Tid Op} {s₁ : ServerState} {t : Tid}
  {c : Choice} {op : Op} {ops rest : List Op} {start : Option (Tid × List Op)} {a : AgentID}
  {cid : ConnectID} {p : ProxyClientConnection}

theorem Handing.arrive (h : Handing cfg s.threads a cid p) {threads : Tid → List Op}
    (hthreads : Pool.Arrived s.threads start threads) : Handing cfg threads a cid p := by
  obtain ⟨b, ha, o, ho, hcase⟩ := h
  exact ⟨b, ha, o, hthreads.mem ho, hcase⟩

/-- An entry after an operation is being handed over, or it is an old entry and
either was not being handed over or has just been. -/
theorem handing_exec (hop : op.Origin cfg s.shared.log t) (hthen : op.Then rest)
    (ht : s.threads t = op :: rest)
    (hex : exec cfg s.shared t c op = some (s₁, ops, start))
    (hp : s₁.established.getFrontend a cid = some p) :
    Handing cfg (Function.update s.threads t (ops ++ rest)) a cid p ∨
      (s.shared.established.getFrontend a cid = some p ∧
        (Handing cfg s.threads a cid p → ∃ b f pkt resp,
          op = .sendFrontend (some f) pkt (.dialRsp b resp) ∧ p.frontend = some f ∧
          cfg.agentID b = a ∧ resp.random = p.dialID ∧ resp.connectID = cid ∧
          s.shared.sendFrontend t f pkt c.ok = some (s₁, true))) := by
  have hafter := exec_established hop hex a cid
  rw [hp] at hafter
  by_cases hnew : ∃ b, op = .addEstablished b cid p ∧ a = cfg.agentID b
  · -- A connection that has just been entered is handed over next.
    obtain ⟨b, rfl, rfl⟩ := hnew
    obtain ⟨pkt, resp, hc, hr, rfl⟩ := hthen
    obtain ⟨rfl, -⟩ := hop
    refine Or.inl ⟨b, rfl, .sendFrontend p.frontend pkt (.dialRsp b resp), ?_,
      Or.inl ⟨pkt, resp, rfl, hr, hc⟩⟩
    rw [Function.update_self]
    exact List.mem_append_right _ (by simp)
  · have hold : s.shared.established.getFrontend a cid = some p := by
      cases op with
      | addEstablished b c' p' =>
          simp only [Op.entryAfter] at hafter
          split at hafter
          · next hkey =>
              obtain ⟨rfl, rfl⟩ := hkey
              cases hafter
              exact absurd ⟨b, rfl, rfl⟩ hnew
          · exact hafter.symm
      | removeEstablished a' c' k =>
          simp only [Op.entryAfter] at hafter
          split at hafter
          · cases hafter
          · exact hafter.symm
      | removeEstablishedForBackendConn b =>
          simp only [Op.entryAfter] at hafter
          split at hafter
          · exact (Option.filter_eq_some_iff.mp hafter.symm).1
          · exact hafter.symm
      | removeEstablishedForStream u =>
          simp only [Op.entryAfter] at hafter
          exact (Option.filter_eq_some_iff.mp hafter.symm).1
      | _ => exact hafter.symm
    by_cases hhand : Handing cfg s.threads a cid p
    · obtain ⟨b, ha, o, ho, hcase⟩ := hhand
      rcases Pool.mem_push ho ht with ⟨heq, rfl⟩ | ho
      · rcases hcase with ⟨pkt, resp, rfl, hr, hc⟩ | rfl
        · obtain ⟨-, f, hf, -⟩ := hop
          simp only [exec, hf] at hex
          split at hex <;> cases hex
          next ok hsend =>
            cases ok with
            | true =>
                exact Or.inr ⟨hold, fun _ => ⟨b, f, pkt, resp, by rw [hf], hf, ha, hr, hc, hsend⟩⟩
            | false =>
                refine Or.inl ⟨b, ha, .removeEstablished a cid (.undo b p.dialID), ?_, Or.inr rfl⟩
                rw [heq, Function.update_self]
                simp [AfterFrontend.next, ha, hr, hc]
        · simp [Op.entryAfter] at hafter
      · exact Or.inl ⟨b, ha, o, ho, hcase⟩
    · exact Or.inr ⟨hold, fun h => absurd h hhand⟩

end Handing

/-! ## Streams and stream UIDs -/

/-- A stream UID is used for a stream that `proxy` serves or for an in-process
dial, not for both. -/
structure StreamInv (s : System.State ServerState Tid Op) : Prop where
  idle : ∀ u, s.threads (.proxy u) ≠ [] → (s.shared.streams u).opened = true
  scanned : ∀ u, .scannedEstablished u ∈ s.shared.log → (s.shared.streams u).opened = true
  conn : ∀ f b r, .dialing f b r ∈ s.shared.log → f.stream ≠ .proxy →
    (s.shared.streams f.streamUID).loop = .returned ∧ s.threads (.proxy f.streamUID) = [] ∧
      .scannedEstablished f.streamUID ∉ s.shared.log

section Streams

variable {cfg : ServerConfig} {s : System.State ServerState Tid Op} {s₁ : ServerState} {t : Tid}
  {c : Choice} {op : Op} {ops rest : List Op} {start : Option (Tid × List Op)}

/-- What an operation does to the streams. -/
theorem exec_loop {s : ServerState} (hop : op.Origin cfg s.log t)
    (hex : exec cfg s t c op = some (s₁, ops, start)) (u : StreamUID) :
    (s₁.streams u).opened = (s.streams u).opened ∧
      ((s₁.streams u).loop = (s.streams u).loop ∨ t = .proxy u) := by
  have set : ∀ (v : StreamUID) (x : StreamState), x.opened = (s.streams v).opened →
      (x.loop = (s.streams v).loop ∨ t = .proxy v) →
      (Function.update s.streams v x u).opened = (s.streams u).opened ∧
        ((Function.update s.streams v x u).loop = (s.streams u).loop ∨ t = .proxy u) := by
    intro v x h1 h2
    by_cases hv : u = v
    · subst hv
      rw [Function.update_self]
      exact ⟨h1, h2⟩
    · rw [Function.update_of_ne hv]
      exact ⟨rfl, Or.inl rfl⟩
  cases op with
  | sendFrontend f pkt k =>
      simp only [exec] at hex
      split at hex
      · cases hex
        exact ⟨rfl, Or.inl rfl⟩
      · split at hex <;> cases hex
        next hsend =>
          obtain ⟨⟨-, h1, h2⟩, -⟩ := (sendFrontend_stream hsend).1 u
          exact ⟨h1, Or.inl h2⟩
  | returnLoop v =>
      simp only [exec] at hex
      cases hex
      exact set v _ rfl (Or.inr hop)
  | handlerReturn v =>
      simp only [exec] at hex
      cases hex
      exact set v _ rfl (Or.inr hop)
  | selectBackend f req pkt =>
      simp only [exec] at hex
      repeat' split at hex
      all_goals cases hex
      all_goals exact set f.streamUID _ rfl (Or.inl rfl)
  | addEstablished b cid p =>
      simp only [exec] at hex
      cases hex
      split <;> exact ⟨rfl, Or.inl rfl⟩
  | _ =>
      simp only [exec] at hex
      repeat' split at hex
      all_goals cases hex
      all_goals exact ⟨rfl, Or.inl rfl⟩

theorem StreamInv.exec (h : StreamInv s)
    (hP : Pool.All (fun t o => o.Origin cfg s.shared.log t) s.threads)
    (ht : s.threads t = op :: rest)
    (hex : exec cfg s.shared t c op = some (s₁, ops, start)) :
    StreamInv ⟨s₁, Function.update s.threads t (ops ++ rest)⟩ := by
  have hop := hP t op (by rw [ht]; exact List.mem_cons_self)
  have hbusy : ∀ u, t = .proxy u → s.threads (.proxy u) ≠ [] := by
    intro u hu
    rw [← hu, ht]
    exact List.cons_ne_nil _ _
  -- The cleanup of a stream is run by the handler of the stream.
  have hscan : ∀ u, .scannedEstablished u ∈ s₁.log →
      .scannedEstablished u ∈ s.shared.log ∨ t = .proxy u := by
    intro u hu
    refine (exec_event hop hex hu).imp_right fun hadd => ?_
    cases op with
    | removeEstablishedForStream v =>
        rcases hadd with heq | ⟨a, c, p, -, -, heq⟩
        · cases heq
          exact hop.1
        · cases heq
    | _ => simp [Op.Adds] at hadd
  refine ⟨fun u hu => ?_, fun u hu => ?_, fun f b r hd hf => ?_⟩
  · dsimp only at hu ⊢
    rw [(exec_loop hop hex u).1]
    by_cases htu : t = .proxy u
    · exact h.idle u (hbusy u htu)
    · rw [Function.update_of_ne fun heq => htu heq.symm] at hu
      exact h.idle u hu
  · dsimp only at hu ⊢
    rw [(exec_loop hop hex u).1]
    rcases hscan u hu with hu | hu
    · exact h.scanned u hu
    · exact h.idle u (hbusy u hu)
  · have hd : .dialing f b r ∈ s.shared.log := by
      refine (exec_event hop hex hd).resolve_right fun hadd => ?_
      cases op with
      | selectBackend f' req pkt =>
          obtain ⟨b', heq⟩ := hadd
          cases heq
          exact hf hop.2.1
      | _ => simp [Op.Adds] at hadd
    obtain ⟨hloop, hidle, hnot⟩ := h.conn f b r hd hf
    have htu : t ≠ .proxy f.streamUID := fun heq => hbusy _ heq hidle
    refine ⟨?_, ?_, fun hsc => ?_⟩
    · dsimp only
      rw [(exec_loop hop hex f.streamUID).2.resolve_right htu]
      exact hloop
    · dsimp only
      rw [Function.update_of_ne fun heq => htu heq.symm]
      exact hidle
    · rcases hscan _ hsc with hsc | hsc
      · exact hnot hsc
      · exact htu hsc

theorem freshStream_opened {s : ServerState} {u : StreamUID} (h : s.freshStream u = true) :
    (s.streams u).opened = false := by
  simp only [ServerState.freshStream, Bool.and_eq_true, Bool.not_eq_true'] at h
  exact h.2

/-- What an arrival does to a stream: nothing, or the stream is new, or `proxy`
serves it. -/
theorem arrive_stream {s : ServerState} {a : ServerAction}
    (harr : arrive cfg s a = some (s₁, start)) (u : StreamUID) :
    s₁.streams u = s.streams u ∨
      ((s.streams u).opened = false ∧ (s₁.streams u).opened = true) ∨
      ((s.streams u).opened = true ∧ (s₁.streams u).opened = true ∧
        (s.streams u).loop ≠ .returned) := by
  have set : ∀ {v : StreamUID} {x : StreamState}, s₁.streams = Function.update s.streams v x →
      (v = u → ((s.streams v).opened = false ∧ x.opened = true) ∨
        ((s.streams v).opened = true ∧ x.opened = true ∧ (s.streams v).loop ≠ .returned)) →
      s₁.streams u = s.streams u ∨
        ((s.streams u).opened = false ∧ (s₁.streams u).opened = true) ∨
        ((s.streams u).opened = true ∧ (s₁.streams u).opened = true ∧
          (s.streams u).loop ≠ .returned) := by
    intro v x hst hx
    rw [hst]
    by_cases hv : v = u
    · subst hv
      rw [Function.update_self]
      exact Or.inr (hx rfl)
    · exact Or.inl (Function.update_of_ne (Ne.symm hv) _ _)
  cases a with
  | openStream v http =>
      simp only [arrive] at harr
      split at harr <;> cases harr
      next hv => exact set rfl fun _ => Or.inl ⟨freshStream_opened hv, rfl⟩
  | dial v r b network address =>
      simp only [arrive] at harr
      split at harr <;> cases harr
      next hv =>
        rw [Bool.and_eq_true] at hv
        exact set rfl fun _ => Or.inl ⟨freshStream_opened hv.1, rfl⟩
  | receive v pkt =>
      simp only [arrive] at harr
      split at harr
      · next hv =>
          simp only [Bool.and_eq_true, beq_iff_eq] at hv
          split at harr
          · cases harr
          · next st hst =>
              split at harr
              · cases harr
                exact Or.inl rfl
              · next st' ops hops =>
                  cases harr
                  refine set rfl fun _ => Or.inr ⟨hv.1, ?_, by rw [hv.2]; simp⟩
                  rw [(serveRecvFrontend_stream hops).2.1, (StreamState.recv_http hst).2.1]
                  exact hv.1
      · cases harr
  | shutdown v =>
      simp only [arrive] at harr
      split at harr <;> cases harr
      next hv =>
        simp only [Bool.and_eq_true, Bool.or_eq_true, beq_iff_eq] at hv
        refine set rfl fun _ => Or.inr ⟨hv.1, hv.1, ?_⟩
        rcases hv.2 with hl | hl <;> rw [hl] <;> simp
  | _ =>
      simp only [arrive] at harr
      repeat' split at harr
      all_goals cases harr
      all_goals exact Or.inl rfl

/-- The handler of a stream is given something to do only while it serves the stream. -/
theorem arrive_serving {s : ServerState} {a : ServerAction} {u : StreamUID}
    (harr : arrive cfg s a = some (s₁, some (.proxy u, ops))) :
    (s.streams u).opened = true ∧ (s.streams u).loop ≠ .returned := by
  cases a with
  | receive v pkt =>
      simp only [arrive] at harr
      split at harr
      · next hv =>
          simp only [Bool.and_eq_true, beq_iff_eq] at hv
          repeat' split at harr
          all_goals cases harr
          all_goals exact ⟨hv.1, by rw [hv.2]; simp⟩
      · cases harr
  | shutdown v =>
      simp only [arrive] at harr
      split at harr <;> cases harr
      next hv =>
        simp only [Bool.and_eq_true, Bool.or_eq_true, beq_iff_eq] at hv
        refine ⟨hv.1, ?_⟩
        rcases hv.2 with hl | hl <;> rw [hl] <;> simp
  | _ =>
      simp only [arrive] at harr
      repeat' split at harr
      all_goals cases harr

theorem StreamInv.arrive (h : StreamInv s) (hhttp : HTTPInv s.shared) {a : ServerAction}
    (harr : arrive cfg s.shared a = some (s₁, start)) {threads : Tid → List Op}
    (hthreads : Pool.Arrived s.threads start threads) : StreamInv ⟨s₁, threads⟩ := by
  have hopened : ∀ u, (s.shared.streams u).opened = true → (s₁.streams u).opened = true := by
    intro u hu
    rcases arrive_stream harr u with heq | ⟨hno, -⟩ | ⟨-, hyes, -⟩
    · rw [heq]
      exact hu
    · rw [hno] at hu
      cases hu
    · exact hyes
  have hscan : ∀ u, .scannedEstablished u ∈ s₁.log → .scannedEstablished u ∈ s.shared.log :=
    fun u hu => (arrive_event harr hu).resolve_right (by simp [Event.arrives])
  have hthread : ∀ u, threads (.proxy u) ≠ s.threads (.proxy u) →
      (s.shared.streams u).opened = true ∧ (s.shared.streams u).loop ≠ .returned := by
    intro u hu
    cases start with
    | none => exact absurd (congrFun hthreads _) hu
    | some st =>
        obtain ⟨t, ops⟩ := st
        obtain ⟨-, rfl⟩ := hthreads
        by_cases ht : t = .proxy u
        · subst ht
          exact arrive_serving harr
        · exact absurd (Function.update_of_ne (Ne.symm ht) _ _) hu
  refine ⟨fun u hu => ?_, fun u hu => hopened u (h.scanned u (hscan u hu)), fun f b r hd hf => ?_⟩
  · by_cases hsame : threads (.proxy u) = s.threads (.proxy u)
    · exact hopened u (h.idle u (hsame ▸ hu))
    · exact hopened u (hthread u hsame).1
  · rcases (arrive_tokens harr).dialing f b r hd with hd | ⟨hdialer, -, u, n, addr, rfl⟩
    · obtain ⟨hloop, hidle, hnot⟩ := h.conn f b r hd hf
      have hop := hhttp.opened f r (Or.inr ⟨b, hd⟩)
      refine ⟨?_, ?_, fun hsc => hnot (hscan _ hsc)⟩
      · rcases arrive_stream harr f.streamUID with heq | ⟨hno, -⟩ | ⟨-, -, hne⟩
        · dsimp only
          rw [heq]
          exact hloop
        · rw [hno] at hop
          cases hop
        · exact absurd hloop hne
      · by_cases hsame : threads (.proxy f.streamUID) = s.threads (.proxy f.streamUID)
        · exact hsame.trans hidle
        · exact absurd hloop (hthread _ hsame).2
    · -- The UID of a new in-process dial was not in use.
      cases hdialer
      have hfresh : (s.shared.streams u).opened = false := by
        simp only [Konnectivity.arrive] at harr
        split at harr <;> cases harr
        next hv =>
          rw [Bool.and_eq_true] at hv
          exact freshStream_opened hv.1
      have hno : ¬ (s.shared.streams u).opened = true := by rw [hfresh]; simp
      refine ⟨?_, ?_, fun hsc => hno (h.scanned u (hscan _ hsc))⟩
      · simp only [Konnectivity.arrive] at harr
        split at harr <;> cases harr
        simp
      · by_cases hsame : threads (.proxy u) = s.threads (.proxy u)
        · refine hsame.trans (Classical.byContradiction fun hne => hno (h.idle u hne))
        · exact absurd (hthread u hsame).1 hno

end Streams

theorem server_stream {cfg : ServerConfig} {okExec : ServerState → Tid → Choice → Op → Prop}
    {okArrive : ServerState → ServerAction → Prop} {s : System.State ServerState Tid Op}
    (hdistinct : ∀ s a, okArrive s a → DistinctDials s a)
    (h : Reach (server cfg).step (System.Allowed okExec okArrive) newServer s) :
    StreamInv s := by
  refine server_invariant StreamInv ?_ ?_ ?_ ?_ h
  · exact ⟨(fun u hu => absurd rfl hu), (fun u hu => nomatch hu), (fun f b r hd => nomatch hd)⟩
  · intro s t c op rest s₁ ops start hr hinv _ ht _ hex
    exact hinv.exec (server_origin hr).2 ht hex
  · exact fun hinv => ⟨hinv.idle, hinv.scanned, hinv.conn⟩
  · intro s a s₁ start threads hr hinv _ _ harr hthreads
    exact hinv.arrive (server_http hdistinct hr) harr hthreads

/-! ## When a frontend leaves nothing behind -/

/-- The `DIAL_RSP` is accepted by a stream whose established connections have
been scanned, while the connection is established. -/
def Op.lateHandover (cfg : ServerConfig) (s : ServerState) (c : Choice) : Op → Bool
  | .sendFrontend (some f) _ (.dialRsp b resp) =>
      c.ok && f.stream == .proxy && decide (.scannedEstablished f.streamUID ∈ s.log) &&
        (s.established.getFrontend (cfg.agentID b) resp.connectID).any
          fun p => p.dialID == resp.random
  | _ => false

/-- Every operation on `established` finds its own entry, and no connection is
handed over after its stream was scanned. -/
def HandedInTime (cfg : ServerConfig) (s : ServerState) (t : Tid) (c : Choice) (op : Op) : Prop :=
  FindsOwn cfg s t c op ∧ op.lateHandover cfg s c = false

instance HandedInTime.decidable (cfg : ServerConfig) (s : ServerState) (t : Tid) (c : Choice)
    (op : Op) : Decidable (HandedInTime cfg s t c op) :=
  inferInstanceAs (Decidable (op.findsOwn cfg s t = true ∧ op.lateHandover cfg s c = false))

/-- Whether a stream accepts a packet is not up to the server. -/
theorem sendFrontend_proxy {s s₁ : ServerState} {t : Tid} {f : Frontend} {pkt : Packet}
    {ok ok' : Bool} (hf : f.stream = .proxy)
    (h : s.sendFrontend t f pkt ok = some (s₁, ok')) : ok' = ok := by
  simp only [ServerState.sendFrontend] at h
  split at h
  · next hconn =>
      rw [hf] at hconn
      cases hconn
  · split at h
    · cases h
    · split at h <;> cases h <;> rfl

/-- An entry of a stream that was scanned is still being handed over. -/
def ScannedInv (cfg : ServerConfig) (s : System.State ServerState Tid Op) : Prop :=
  ∀ a cid p u, s.shared.established.getFrontend a cid = some p →
    p.frontend = some (proxyFrontend u) → .scannedEstablished u ∈ s.shared.log →
    Handing cfg s.threads a cid p

theorem ScannedInv.exec {cfg : ServerConfig} {s : System.State ServerState Tid Op}
    {s₁ : ServerState} {t : Tid} {c : Choice} {op : Op} {ops rest : List Op}
    {start : Option (Tid × List Op)} (h : ScannedInv cfg s)
    (hop : op.Origin cfg s.shared.log t) (hthen : op.Then rest) (ht : s.threads t = op :: rest)
    (hok : op.lateHandover cfg s.shared c = false)
    (hex : exec cfg s.shared t c op = some (s₁, ops, start)) :
    ScannedInv cfg ⟨s₁, Function.update s.threads t (ops ++ rest)⟩ := by
  intro a cid p u hp hf hscan
  rcases handing_exec hop hthen ht hex hp with hhand | ⟨hold, hhand⟩
  · exact hhand
  · have hscan : .scannedEstablished u ∈ s.shared.log := by
      refine (exec_event hop hex hscan).resolve_right fun hadd => ?_
      cases op with
      | removeEstablishedForStream v =>
          rcases hadd with heq | ⟨_, _, _, -, -, heq⟩
          · cases heq
            -- The scan itself takes the entries of the stream away.
            have hafter := exec_established hop hex a cid
            rw [hp] at hafter
            have := (Option.filter_eq_some_iff.mp hafter.symm).2
            simp [ProxyClientConnection.ofStream, hf, proxyFrontend] at this
          · cases heq
      | _ => simp [Op.Adds] at hadd
    obtain ⟨b, f, pkt, resp, rfl, hpf, ha, hr, hc, hsend⟩ := hhand (h a cid p u hold hf hscan)
    rw [hf] at hpf
    cases hpf
    have hcok : true = c.ok := sendFrontend_proxy rfl hsend
    have hlate : Op.lateHandover cfg s.shared c
        (.sendFrontend (some (proxyFrontend u)) pkt (.dialRsp b resp)) = true := by
      simp only [Op.lateHandover, ← hcok, ha, hc, hold, hr, proxyFrontend]
      simp [hscan]
    rw [hlate] at hok
    cases hok

theorem server_scanned {cfg : ServerConfig} {okArrive : ServerState → ServerAction → Prop}
    {s : System.State ServerState Tid Op}
    (h : Reach (server cfg).step (System.Allowed (HandedInTime cfg) okArrive) newServer s) :
    ScannedInv cfg s := by
  refine server_invariant (ScannedInv cfg) ?_ ?_ ?_ ?_ h
  · exact fun a cid p u hp => nomatch hp
  · intro s t c op rest s₁ ops start hr hinv _ ht hok hex
    have hop := (server_origin hr).2 t op (by rw [ht]; exact List.mem_cons_self)
    exact hinv.exec hop (ht ▸ server_then hr t).1 ht hok.2 hex
  · exact fun hinv => hinv
  · intro s a s₁ start threads hr hinv _ _ harr hthreads a' cid p u hp hf hscan
    obtain ⟨-, hest, -⟩ := arrive_adds harr
    have hscan := (arrive_event harr hscan).resolve_right (by simp [Event.arrives])
    dsimp only at hp
    rw [hest] at hp
    exact (hinv a' cid p u hp hf hscan).arrive hthreads

/-- The operations of a dispatcher for the `DIAL_RSP` of the dial. -/
def Op.ofDialRsp (r : DialID) : Op → Bool
  | .pendingRemove r' (.dialRsp _ _ _) => r' == r
  | .addEstablished _ _ p => p.dialID == r
  | .sendFrontend _ _ (.dialRsp _ resp) => resp.random == r
  | .removeEstablished _ _ (.undo _ r') => r' == r
  | _ => false

/-- No dispatcher is in the middle of a `DIAL_RSP` for the dial, and the `CLOSE_REQ`
that came out of it for the connection has been sent. -/
def DialRspDone (s : System.State ServerState Tid Op) (r : DialID) (b : BackendId)
    (c : ConnectID) : Prop :=
  (∀ b', ∀ o ∈ s.threads (.dispatcher b'), o.ofDialRsp r = false) ∧
    ∀ o ∈ s.threads (.dispatcher b), ¬ o.closesConn b c

/-- Nothing is left of a stream: no entry carries its UID, and every connection
that was reported for one of its dials has been closed. -/
def LeavesNothing (s : System.State ServerState Tid Op) (u : StreamUID) : Prop :=
  (∀ a c p, s.shared.established.getFrontend a c = some p → p.ofStream u = false) ∧
    ∀ b r c, HasDial s.shared.log (proxyFrontend u) r → c ≠ 0 → Closed s.shared.log b r c

/-- Over any run in which dial IDs are distinct, agents answer only their own
dials, every operation on `established` finds its own entry and no connection
is handed over to a stream that was scanned: when the cleanup of the stream
and the handlers of its `DIAL_RSP`s have finished, nothing is left of it. -/
theorem frontend_leaves_nothing {cfg : ServerConfig} {s : System.State ServerState Tid Op}
    (h : Reach (server cfg).step (System.Allowed (HandedInTime cfg) HonestDials) newServer s)
    {u : StreamUID} (hscan : .scannedEstablished u ∈ s.shared.log)
    (hidle : s.threads (.proxy u) = [])
    (hdone : ∀ r b c, HasDial s.shared.log (proxyFrontend u) r → Reported s.shared.log b r c →
      DialRspDone s r b c) :
    LeavesNothing s u := by
  obtain ⟨hG, hP⟩ := server_origin h
  have hc := server_custody (fun _ _ h => h.1) h
  have hstream := server_stream (fun _ _ h => h.1) h
  have hscanned := server_scanned h
  have hlive := server_live (fun _ _ _ _ h => h.1) (fun _ _ h => h) h
  have hentry : ∀ a cid p, s.shared.established.getFrontend a cid = some p →
      p.ofStream u = false := by
    intro a cid p hp
    refine Bool.eq_false_iff.mpr fun hu => ?_
    obtain ⟨-, -, ⟨f, b, hf, -, hd⟩, b₀, -, hrep⟩ := hG.established a cid p hp
    have huf : f.streamUID = u := by
      simp only [ProxyClientConnection.ofStream, hf] at hu
      exact of_decide_eq_true hu
    -- The stream is one that `proxy` serves, since it was scanned.
    have hfu : f = proxyFrontend u := by
      by_cases hproxy : f.stream = .proxy
      · cases f
        cases huf
        cases hproxy
        rfl
      · exact absurd (huf ▸ hscan) (hstream.conn f b p.dialID hd hproxy).2.2
    subst hfu
    obtain ⟨b', -, o, ho, hcase⟩ := hscanned a cid p u hp hf hscan
    have hfalse := (hdone p.dialID b₀ cid (Or.inr ⟨b, hd⟩) hrep).1 b' o ho
    rcases hcase with ⟨pkt, resp, rfl, hr, -⟩ | rfl
    · simp [Op.ofDialRsp, hr] at hfalse
    · simp [Op.ofDialRsp] at hfalse
  refine ⟨hentry, fun b r cid hd hcid => closed_of_not_live fun hl => ?_⟩
  obtain ⟨hrsp, hclose⟩ := hdone r b cid hd hl.reported
  rcases hlive.tracked b r cid hcid hl with ⟨o, ho, he⟩ | ⟨p, hp, hr⟩ | ⟨t, o, ho, hcl, hcc⟩
  · have hfalse := hrsp b o ho
    cases o with
    | pendingRemove r' k =>
        cases k with
        | dialRsp b' resp pkt => simp [Op.ofDialRsp, he.1] at hfalse
        | _ => exact he.elim
    | addEstablished b' c' p => simp [Op.ofDialRsp, he.2.2] at hfalse
    | _ => exact he.elim
  · obtain ⟨-, -, ⟨f, b', hf, -, hd'⟩, -⟩ := hG.established _ _ p hp
    rw [hr] at hd'
    rw [hc.frontend f (proxyFrontend u) r (Or.inr ⟨b', hd'⟩) hd] at hf
    have hu := hentry _ _ p hp
    simp [ProxyClientConnection.ofStream, hf, proxyFrontend] at hu
  · rcases hcl with rfl | ⟨f, hf, rfl⟩ | ⟨hcl, hqueue⟩
    · exact hclose o ho hcc
    · rw [hc.frontend f (proxyFrontend u) r hf hd] at ho
      rw [show (proxyFrontend u).streamUID = u from rfl, hidle] at ho
      cases ho
    · obtain ⟨-, f, b', hf, hd'⟩ := closer_finishing hP (server_then h) hcl ho hqueue hcc
      rw [hc.frontend f (proxyFrontend u) r (Or.inr ⟨b', hd'⟩) hd] at hf
      cases hf

/-- The frontend goes away while the connection is being handed over, and the
`DIAL_RSP` is refused: the entry is taken away again and the agent is told. -/
theorem frontend_leaves_nothing_refused :
    let cfg : ServerConfig := ⟨fun _ => { id := "a" }, false⟩
    ∃ s : System.State ServerState Tid Op,
      Reach (server cfg).step (System.Allowed (HandedInTime cfg) HonestDials) newServer s ∧
        .fromBackend 0 (.ofDialResponse ⟨"", 1, 10⟩) ∈ s.shared.log ∧
        (s.shared.streams "x").loop = .returned ∧ LeavesNothing s "x" := by
  intro cfg
  let acts : List (System.Action Tid ServerAction Choice) :=
    [.arrive (.connect 0), .arrive (.openStream "x" none),
      .arrive (.receive "x" (.ofDialRequest ⟨"tcp", "h", 10⟩)),
      .run (.proxy "x") { backend := some 0 }, .run (.proxy "x") {}, .run (.proxy "x") {},
      .run (.proxy "x") {}, .arrive (.deliver 0 (.ofDialResponse ⟨"", 1, 10⟩)),
      .run (.dispatcher 0) {}, .arrive (.shutdown "x"), .run (.proxy "x") {},
      .run (.proxy "x") {}, .run (.dispatcher 0) {}, .run (.dispatcher 0) {},
      .run (.dispatcher 0) { ok := false }, .run (.dispatcher 0) {}, .run (.dispatcher 0) {},
      .run (.dispatcher 0) {}, .run (.proxy "x") {}]
  have hrun : ∃ s, run (server cfg).step newServer acts = some s ∧
      .fromBackend 0 (.ofDialResponse ⟨"", 1, 10⟩) ∈ s.shared.log ∧
      (s.shared.streams "x").loop = .returned ∧ .scannedEstablished "x" ∈ s.shared.log ∧
      s.threads (.proxy "x") = [] ∧ ∀ b, s.threads (.dispatcher b) = [] := by
    refine ⟨_, rfl, by decide, rfl, by decide, rfl, fun b => ?_⟩
    cases b <;> rfl
  obtain ⟨s, hs, hrep, hret, hscan, hidle, hdisp⟩ := hrun
  have hreach : Reach (server cfg).step (System.Allowed (HandedInTime cfg) HonestDials)
      newServer s := reach_of_run hs (by decide)
  refine ⟨s, hreach, hrep, hret, frontend_leaves_nothing hreach hscan hidle fun r b c _ _ => ?_⟩
  refine ⟨fun b' o ho => ?_, fun o ho => ?_⟩
  · rw [hdisp] at ho
    cases ho
  · rw [hdisp] at ho
    cases ho

/-- The same run, but the stream accepts the `DIAL_RSP` before its handler
returns: the entry stays, and the agent is never told. -/
theorem frontend_leaves_connection :
    let cfg : ServerConfig := ⟨fun _ => { id := "a" }, false⟩
    ∃ s : System.State ServerState Tid Op,
      Reach (server cfg).step (System.Allowed (fun _ _ _ _ => True) HonestDials) newServer s ∧
        .scannedEstablished "x" ∈ s.shared.log ∧ s.threads (.proxy "x") = [] ∧
        (∀ b, s.threads (.dispatcher b) = []) ∧ (s.shared.streams "x").loop = .returned ∧
        s.shared.log.any (Event.requestsClose 0 1) = false ∧ ¬ LeavesNothing s "x" := by
  intro cfg
  let entry : ProxyClientConnection :=
    { frontend := some (proxyFrontend "x"), dialID := 10, connectID := 1, agentID := "a"
      backend := some 0, dialAddress := "h" }
  let acts : List (System.Action Tid ServerAction Choice) :=
    [.arrive (.connect 0), .arrive (.openStream "x" none),
      .arrive (.receive "x" (.ofDialRequest ⟨"tcp", "h", 10⟩)),
      .run (.proxy "x") { backend := some 0 }, .run (.proxy "x") {}, .run (.proxy "x") {},
      .run (.proxy "x") {}, .arrive (.deliver 0 (.ofDialResponse ⟨"", 1, 10⟩)),
      .run (.dispatcher 0) {}, .arrive (.shutdown "x"), .run (.proxy "x") {},
      .run (.proxy "x") {}, .run (.dispatcher 0) {}, .run (.dispatcher 0) {},
      .run (.dispatcher 0) {}, .run (.proxy "x") {}]
  have hrun : ∃ s, run (server cfg).step newServer acts = some s ∧
      .scannedEstablished "x" ∈ s.shared.log ∧ s.threads (.proxy "x") = [] ∧
      (∀ b, s.threads (.dispatcher b) = []) ∧ (s.shared.streams "x").loop = .returned ∧
      s.shared.log.any (Event.requestsClose 0 1) = false ∧
      s.shared.established.getFrontend "a" 1 = some entry := by
    refine ⟨_, rfl, by decide, rfl, fun b => ?_, rfl, by decide, by decide⟩
    cases b <;> rfl
  obtain ⟨s, hs, hscan, hidle, hdisp, hret, hnone, hentry⟩ := hrun
  refine ⟨s, reach_of_run hs (by decide), hscan, hidle, hdisp, hret, hnone, fun h => ?_⟩
  have := h.1 "a" 1 entry hentry
  simp [ProxyClientConnection.ofStream, entry, proxyFrontend] at this

end Konnectivity
