import Konnectivity.Proofs.Custody

/-!
# Runs in which no dial ID is used twice

The invariant of the tokens, carried along whole runs, and what it says about
the frontends: a dial is answered at most once, and an HTTP-CONNECT stream,
which has one dial, closes its `connected` channel at most once.
-/

namespace Konnectivity

open Lib

variable {cfg : ServerConfig}

/-! ## The tokens along a run -/

theorem CustodyInv.new : CustodyInv newServer where
  exclusive := ⟨fun _ => List.nodup_nil, fun _ _ _ => List.disjoint_nil_left _⟩
  held r hr := by
    obtain ⟨t, o, ho, -⟩ := hr
    cases ho
  pending r p hp := nomatch hp
  once r := Nat.zero_le 1
  answered r hr := nomatch hr
  frontend f f' r hf := by
    rcases hf with ⟨pkt, hp, -⟩ | ⟨b, hd⟩
    · cases hp
    · cases hd
  selecting r hr := by
    obtain ⟨t, o, ho, -⟩ := hr
    cases ho
  backend f f' b b' r hd := nomatch hd

theorem CustodyInv.step {s s' : System.State ServerState Tid Op}
    {a : System.Action Tid ServerAction Choice} (h : CustodyInv s)
    (hG : SharedOrigin cfg s.shared)
    (hP : Pool.All (fun t o => o.Origin cfg s.shared.log t) s.threads)
    (hok : System.Allowed (fun _ _ _ _ => True) DistinctDials s a)
    (hst : (server cfg).step s a = some s') : CustodyInv s' := by
  rcases System.step_cases hst with ⟨t, c, o, rest, s₁, ops, rfl, ht, hex, rfl⟩ |
    ⟨t, c, o, rest, s₁, ops, t', ops', rfl, ht, hex, rfl⟩ | ⟨x, s₁, rfl, harr, rfl⟩ |
    ⟨x, s₁, t, ops, rfl, harr, ht, rfl⟩
  · exact h.exec hG hP ht hex
  · have hop := hP t o (by rw [ht]; exact List.mem_cons_self)
    exact (h.exec hG hP ht hex).spawn ((exec_tokens hG hop hex).2 t' ops' rfl)
      ((exec_selecting hex).2 t' ops' rfl)
  · exact h.arrive hG hP hok (arrive_origin hG harr).2.1 (arrive_tokens harr) (Or.inl rfl)
  · exact h.arrive hG hP hok (arrive_origin hG harr).2.1 (arrive_tokens harr)
      (Or.inr ⟨t, ops, rfl, ht, rfl⟩)

/-- The states of the runs that use no dial ID twice, under any further condition. -/
theorem server_custody {okExec : ServerState → Tid → Choice → Op → Prop}
    {okArrive : ServerState → ServerAction → Prop} {s : System.State ServerState Tid Op}
    (hdistinct : ∀ s a, okArrive s a → DistinctDials s a)
    (h : Reach (server cfg).step (System.Allowed okExec okArrive) newServer s) :
    CustodyInv s := by
  refine Reach.invariant CustodyInv CustodyInv.new ?_ h
  intro s a s' hr hinv hok hst
  obtain ⟨hG, hP⟩ := server_origin hr
  refine hinv.step hG hP ?_ hst
  cases a with
  | arrive a => exact hdistinct _ _ hok
  | run t c => exact fun _ _ _ => trivial

/-! ## HTTP-CONNECT streams -/

/-- A stream that dials is open; an HTTP-CONNECT stream has its own dial only
and is connected by the answer to it. -/
structure HTTPInv (s : ServerState) : Prop where
  opened : ∀ f r, HasDial s.log f r → (s.streams f.streamUID).opened = true
  single : ∀ u h, (s.streams u).http = some h →
    ∀ r, HasDial s.log (proxyFrontend u) r → r = h.dialID
  connected : ∀ u h, (s.streams u).http = some h → (s.streams u).connected = true →
    0 < answers s.log h.dialID
  panic : s.panic ≠ some .closeOfClosedChannel

/-- What an operation does to the streams, `Send` to a frontend apart. -/
theorem exec_streams {s s₁ : ServerState} {t : Tid} {c : Choice} {op : Op} {ops : List Op}
    {start : Option (Tid × List Op)} (hex : exec cfg s t c op = some (s₁, ops, start))
    (hop : ∀ f pkt k, op ≠ .sendFrontend (some f) pkt k) :
    (∀ u, (s₁.streams u).http = (s.streams u).http ∧
      (s₁.streams u).connected = (s.streams u).connected ∧
      (s₁.streams u).opened = (s.streams u).opened) ∧
    (s₁.panic = s.panic ∨ s₁.panic = some .nilPointer) := by
  have set : ∀ (u : StreamUID) (x : StreamState), x.http = (s.streams u).http →
      x.connected = (s.streams u).connected → x.opened = (s.streams u).opened →
      ∀ v, (Function.update s.streams u x v).http = (s.streams v).http ∧
        (Function.update s.streams u x v).connected = (s.streams v).connected ∧
        (Function.update s.streams u x v).opened = (s.streams v).opened := by
    intro u x h1 h2 h3 v
    by_cases hv : v = u
    · subst hv
      rw [Function.update_self]
      exact ⟨h1, h2, h3⟩
    · rw [Function.update_of_ne hv]
      exact ⟨rfl, rfl, rfl⟩
  cases op with
  | sendFrontend f pkt k =>
      cases f with
      | none =>
          simp only [exec] at hex
          cases hex
          exact ⟨fun u => ⟨rfl, rfl, rfl⟩, Or.inr rfl⟩
      | some f => exact absurd rfl (hop f pkt k)
  | returnLoop u =>
      simp only [exec] at hex
      cases hex
      exact ⟨set u _ rfl rfl rfl, Or.inl rfl⟩
  | handlerReturn u =>
      simp only [exec] at hex
      cases hex
      exact ⟨set u _ rfl rfl rfl, Or.inl rfl⟩
  | selectBackend f req pkt =>
      simp only [exec] at hex
      repeat' split at hex
      all_goals cases hex
      all_goals exact ⟨set f.streamUID _ rfl rfl rfl, Or.inl rfl⟩
  | addEstablished b cid p =>
      simp only [exec] at hex
      cases hex
      split <;> exact ⟨fun u => ⟨rfl, rfl, rfl⟩, Or.inl rfl⟩
  | _ =>
      simp only [exec] at hex
      repeat' split at hex
      all_goals cases hex
      all_goals first
        | exact ⟨fun u => ⟨rfl, rfl, rfl⟩, Or.inl rfl⟩
        | exact ⟨fun u => ⟨rfl, rfl, rfl⟩, Or.inr rfl⟩

theorem HTTPInv.exec {s : System.State ServerState Tid Op} {s₁ : ServerState} {t : Tid}
    {c : Choice} {op : Op} {ops rest : List Op} {start : Option (Tid × List Op)}
    (h : HTTPInv s.shared) (hc : CustodyInv s) (hG : SharedOrigin cfg s.shared)
    (hP : Pool.All (fun t o => o.Origin cfg s.shared.log t) s.threads)
    (hrun : s.shared.panic = none) (ht : s.threads t = op :: rest)
    (hex : exec cfg s.shared t c op = some (s₁, ops, start)) : HTTPInv s₁ := by
  have hmem : op ∈ s.threads t := by rw [ht]; exact List.mem_cons_self
  have hop := hP t op hmem
  have hold : ∀ f r, HasDial s₁.log f r → HasDial s.shared.log f r :=
    fun f r => exec_hasDial hop hex
  have hanswers : ∀ r, answers s.shared.log r ≤ answers s₁.log r := by
    intro r
    rcases (exec_tokens hG hop hex).1.answers r with heq | ⟨-, -, -, heq⟩ <;> omega
  by_cases hsend : ∃ f pkt k, op = .sendFrontend (some f) pkt k
  · obtain ⟨f, pkt, k, rfl⟩ := hsend
    obtain ⟨-, f', hf', horigin⟩ := hop
    injection hf' with hf'
    subst hf'
    -- The dial that is answered is the only dial of the stream, and unanswered so far.
    have hfirst : ∀ u h', f = proxyFrontend u → (s.shared.streams u).http = some h' →
        pkt.answersDial.isSome → pkt.answersDial = some h'.dialID ∧
          answers s.shared.log h'.dialID = 0 := by
      intro u h' hfu hhttp hans
      obtain ⟨r, hr⟩ := Option.isSome_iff_exists.mp hans
      have hrh : r = h'.dialID := h.single u h' hhttp r (hfu ▸ horigin r hr)
      refine ⟨hrh ▸ hr, (hc.held _ ⟨t, _, hmem, ?_⟩).2⟩
      simp [Op.tokens, hr, hrh]
    simp only [Konnectivity.exec] at hex
    split at hex
    · cases hex
    · next s₂ ok hsend =>
        cases hex
        obtain ⟨hst, hpanic⟩ := sendFrontend_stream hsend
        refine ⟨fun f r hd => ?_, fun u h' hh r hd => ?_, fun u h' hh hcon => ?_, fun hp => ?_⟩
        · rw [(hst _).1.2.1]
          exact h.opened f r (hold f r hd)
        · exact h.single u h' (by rw [← (hst u).1.1]; exact hh) r (hold _ r hd)
        · rw [(hst u).1.1] at hh
          rcases (hst u).2 hcon with hcon | ⟨hfu, hans, hlog⟩
          · exact Nat.lt_of_lt_of_le (h.connected u h' hh hcon) (hanswers _)
          · have hans' : (Event.toFrontend t f pkt ok).answered = some h'.dialID :=
              (hfirst u h' hfu hh hans).1
            rw [hlog, answers_cons, if_pos hans']
            exact Nat.succ_pos _
        · obtain ⟨u, hfu, hans, hsome, hcon⟩ := hpanic (by rw [hp, hrun]; simp)
          obtain ⟨h', hh⟩ := Option.isSome_iff_exists.mp hsome
          have hzero := (hfirst u h' hfu hh hans).2
          have hpos := h.connected u h' hh hcon
          omega
  · obtain ⟨hst, hpanic⟩ := exec_streams hex fun f pkt k heq => hsend ⟨f, pkt, k, heq⟩
    refine ⟨fun f r hd => ?_, fun u h' hh r hd => ?_, fun u h' hh hcon => ?_, fun hp => ?_⟩
    · rw [(hst _).2.2]
      exact h.opened f r (hold f r hd)
    · exact h.single u h' (by rw [← (hst u).1]; exact hh) r (hold _ r hd)
    · rw [(hst u).1] at hh
      rw [(hst u).2.1] at hcon
      exact Nat.lt_of_lt_of_le (h.connected u h' hh hcon) (hanswers _)
    · rcases hpanic with hpanic | hpanic
      · rw [hpanic, hrun] at hp
        cases hp
      · rw [hpanic] at hp
        cases hp

/-- What an HTTP-CONNECT stream delivers. -/
theorem StreamState.recv_http {st st' : StreamState} {pkt : Packet} (h : st.recv pkt = some st') :
    st'.http = st.http ∧ st'.opened = st.opened ∧ st'.connected = st.connected ∧
      st'.loop = st.loop ∧
      ∀ h', st.http = some h' → ∀ r, pkt.requestsDial = some r → r = h'.dialID := by
  simp only [StreamState.recv] at h
  split at h
  · next hnone =>
      cases h
      refine ⟨rfl, rfl, rfl, rfl, fun h' hh => ?_⟩
      rw [hnone] at hh
      cases hh
  · next h₀ hsome =>
      split at h
      · split at h
        · next hpkt =>
            cases h
            refine ⟨rfl, rfl, rfl, rfl, fun h' hh r hr => ?_⟩
            rw [hsome] at hh
            cases hh
            rw [hpkt] at hr
            cases hr
            rfl
        · cases h
      · split at h
        · split at h
          · split at h
            · next hpkt =>
                cases h
                refine ⟨rfl, rfl, rfl, rfl, fun h' hh r hr => ?_⟩
                rw [hpkt] at hr
                cases hr
            · cases h
          · cases h
        · cases h

theorem serveRecvFrontend_stream {f : Frontend} {st st' : StreamState} {pkt : Packet}
    {ops : List Op} (h : serveRecvFrontend f st pkt = some (st', ops)) :
    st'.http = st.http ∧ st'.opened = st.opened ∧ st'.connected = st.connected ∧
      st'.loop = st.loop := by
  simp only [serveRecvFrontend] at h
  split at h
  · obtain ⟨req, -, heq⟩ := Option.map_eq_some_iff.mp h
    cases heq
    exact ⟨rfl, rfl, rfl, rfl⟩
  · obtain ⟨req, -, heq⟩ := Option.map_eq_some_iff.mp h
    split at heq <;> cases heq <;> exact ⟨rfl, rfl, rfl, rfl⟩
  · obtain ⟨req, -, heq⟩ := Option.map_eq_some_iff.mp h
    cases heq
    exact ⟨rfl, rfl, rfl, rfl⟩
  · obtain ⟨req, -, heq⟩ := Option.map_eq_some_iff.mp h
    repeat' split at heq
    all_goals cases heq
    all_goals exact ⟨rfl, rfl, rfl, rfl⟩
  · cases h
    exact ⟨rfl, rfl, rfl, rfl⟩

/-- One stream moves; what it dials is its own dial. -/
theorem HTTPInv.setStream {s s₁ : ServerState} (h : HTTPInv s) {u : StreamUID}
    {x : StreamState} (hst : s₁.streams = Function.update s.streams u x)
    (hans : ∀ r, answers s₁.log r = answers s.log r)
    (hpanic : s₁.panic ≠ some .closeOfClosedChannel) (hx : x.opened = true)
    (hcon : ∀ h', x.http = some h' → x.connected = true →
      (s.streams u).http = some h' ∧ (s.streams u).connected = true)
    (hsplit : ∀ f r, HasDial s₁.log f r → f.streamUID = u ∨ HasDial s.log f r)
    (hsingle : ∀ h', x.http = some h' → ∀ r, HasDial s₁.log (proxyFrontend u) r →
      r = h'.dialID) : HTTPInv s₁ := by
  refine ⟨fun f r hd => ?_, fun v h' hh r hd => ?_, fun v h' hh hv => ?_, hpanic⟩
  · rw [hst]
    by_cases hf : f.streamUID = u
    · rw [hf, Function.update_self]
      exact hx
    · rw [Function.update_of_ne hf]
      exact h.opened f r ((hsplit f r hd).resolve_left hf)
  · rw [hst] at hh
    by_cases hv : v = u
    · subst hv
      rw [Function.update_self] at hh
      exact hsingle h' hh r hd
    · rw [Function.update_of_ne hv] at hh
      exact h.single v h' hh r ((hsplit _ r hd).resolve_left hv)
  · rw [hst] at hh hv
    rw [hans]
    by_cases hvu : v = u
    · subst hvu
      rw [Function.update_self] at hh hv
      obtain ⟨h1, h2⟩ := hcon h' hh hv
      exact h.connected v h' h1 h2
    · rw [Function.update_of_ne hvu] at hh hv
      exact h.connected v h' hh hv

theorem HTTPInv.receive {s s₁ : ServerState} {u : StreamUID} {pkt : Packet}
    {start : Option (Tid × List Op)} (h : HTTPInv s) (hrun : s.panic = none)
    (harr : arrive cfg s (.receive u pkt) = some (s₁, start)) : HTTPInv s₁ := by
  have hstep := arrive_tokens harr
  have hnopanic : s.panic ≠ some .closeOfClosedChannel := by
    rw [hrun]
    simp
  simp only [Konnectivity.arrive] at harr
  split at harr
  · next hopen =>
      have hop : (s.streams u).opened = true := (Bool.and_eq_true _ _ ▸ hopen).1
      split at harr
      · cases harr
      · next st hrecv =>
          obtain ⟨h1, h2, h3, -, hown⟩ := StreamState.recv_http hrecv
          split at harr
          · cases harr
            refine ⟨fun f r hd => ?_, fun v h' hh r hd => ?_, fun v h' hh hcon => ?_,
              fun hp => by cases hp⟩
            · rcases hstep.hasDial hd with hd | ⟨hf, -⟩
              · exact h.opened f r hd
              · cases hf
                exact hop
            · rcases hstep.hasDial hd with hd | ⟨hf, hr⟩
              · exact h.single v h' hh r hd
              · cases hf
                exact hown h' hh r hr
            · rw [hstep.answers]
              exact h.connected v h' hh hcon
          · next st' ops hserve =>
              obtain ⟨h1', h2', h3', -⟩ := serveRecvFrontend_stream hserve
              cases harr
              refine h.setStream rfl hstep.answers hnopanic (by rw [h2', h2, hop])
                (fun h' hh hc => ?_) (fun f r hd => ?_) fun h' hh r hd => ?_
              · rw [h1', h1] at hh
                rw [h3', h3] at hc
                exact ⟨hh, hc⟩
              · rcases hstep.hasDial hd with hd | ⟨hf, -⟩
                · exact Or.inr hd
                · cases hf
                  exact Or.inl rfl
              · rw [h1', h1] at hh
                rcases hstep.hasDial hd with hd | ⟨-, hr⟩
                · exact h.single u h' hh r hd
                · exact hown h' hh r hr
  · cases harr

theorem HTTPInv.arrive {s s₁ : ServerState} {a : ServerAction} {start : Option (Tid × List Op)}
    (h : HTTPInv s) (hrun : s.panic = none) (harr : arrive cfg s a = some (s₁, start)) :
    HTTPInv s₁ := by
  have hstep := arrive_tokens harr
  have hsplit : ∀ f r, HasDial s₁.log f r → HasDial s.log f r ∨
      (a.dialer = some f ∧ a.dials = some r) := fun f r => hstep.hasDial
  -- Nothing happens to the streams or to the dials.
  have quiet : a.dials = none → s₁.streams = s.streams →
      (s₁.panic = none ∨ s₁.panic = some .nilPayload) → HTTPInv s₁ := by
    intro hnone hst hpanic
    have hold : ∀ f r, HasDial s₁.log f r → HasDial s.log f r := by
      intro f r hd
      refine (hsplit f r hd).resolve_right fun hc => ?_
      rw [hnone] at hc
      cases hc.2
    refine ⟨fun f r hd => ?_, fun u h' hh r hd => ?_, fun u h' hh hcon => ?_, fun hp => ?_⟩
    · rw [hst]
      exact h.opened f r (hold f r hd)
    · exact h.single u h' (hst ▸ hh) r (hold _ r hd)
    · rw [hstep.answers]
      exact h.connected u h' (hst ▸ hh) (hst ▸ hcon)
    · rcases hpanic with hpanic | hpanic <;> rw [hpanic] at hp <;> cases hp
  have hnopanic : s.panic ≠ some .closeOfClosedChannel := by
    rw [hrun]
    simp
  -- A stream that is not open has no dial.
  have hfresh : ∀ {u}, s.freshStream u = true → ∀ f r, f.streamUID = u → ¬ HasDial s.log f r := by
    intro u hu f r hf hd
    have := h.opened f r hd
    rw [hf] at this
    simp [ServerState.freshStream, this] at hu
  cases a with
  | openStream u http =>
      simp only [Konnectivity.arrive] at harr
      split at harr
      · next hu =>
          cases harr
          refine h.setStream rfl (fun _ => rfl) hnopanic rfl (fun h' _ hc => by cases hc)
            (fun f r hd => Or.inr hd) fun h' _ r hd => absurd hd (hfresh hu _ r rfl)
      · cases harr
  | dial u r b network address =>
      simp only [Konnectivity.arrive] at harr
      split at harr
      · cases harr
        refine h.setStream rfl hstep.answers hnopanic rfl (fun h' hc => by cases hc)
          (fun f r' hd => ?_) fun h' hc => by cases hc
        rcases hsplit f r' hd with hd | ⟨hf, -⟩
        · exact Or.inr hd
        · cases hf
          exact Or.inl rfl
      · cases harr
  | receive u pkt => exact h.receive hrun harr
  | shutdown u =>
      simp only [Konnectivity.arrive] at harr
      split at harr
      · next hopen =>
          have hop : (s.streams u).opened = true := (Bool.and_eq_true _ _ ▸ hopen).1
          cases harr
          have hold : ∀ f r, HasDial _ f r → HasDial s.log f r := fun f r hd =>
            (hsplit f r hd).resolve_right fun hc => by cases hc.1
          exact h.setStream rfl hstep.answers hnopanic hop (fun h' hh hc => ⟨hh, hc⟩)
            (fun f r hd => Or.inr (hold f r hd))
            fun h' hh r hd => h.single u h' hh r (hold _ r hd)
      · cases harr
  | deliver b pkt =>
      simp only [Konnectivity.arrive] at harr
      split at harr
      · split at harr
        · cases harr
          exact quiet rfl rfl (Or.inr rfl)
        · cases harr
          exact quiet rfl rfl (Or.inl hrun)
      · cases harr
  | watchClose r =>
      simp only [Konnectivity.arrive] at harr
      split at harr
      · cases harr
      · split at harr
        · cases harr
          exact quiet rfl rfl (Or.inl hrun)
        · cases harr
  | _ =>
      simp only [Konnectivity.arrive] at harr
      split at harr <;> cases harr
      exact quiet rfl rfl (Or.inl hrun)

/-! ## At most one answer -/

theorem server_http {okExec : ServerState → Tid → Choice → Op → Prop}
    {okArrive : ServerState → ServerAction → Prop} {s : System.State ServerState Tid Op}
    (hdistinct : ∀ s a, okArrive s a → DistinctDials s a)
    (h : Reach (server cfg).step (System.Allowed okExec okArrive) newServer s) :
    HTTPInv s.shared := by
  refine Reach.invariant (fun s => HTTPInv s.shared) ?_ ?_ h
  · refine ⟨fun f r hd => ?_, (fun u h' hh => nomatch hh), (fun u h' hh => nomatch hh),
      (fun hp => nomatch hp)⟩
    rcases hd with ⟨pkt, hp, -⟩ | ⟨b, hd⟩
    · cases hp
    · cases hd
  · intro s a s' hr hinv hok hst
    obtain ⟨hG, hP⟩ := server_origin hr
    have hc := server_custody hdistinct hr
    have hrun : s.shared.panic = none := by
      have := System.step_halted hst
      simpa [server] using this
    rcases System.step_cases hst with ⟨t, c, o, rest, s₁, ops, rfl, ht, hex, rfl⟩ |
      ⟨t, c, o, rest, s₁, ops, t', ops', rfl, ht, hex, rfl⟩ | ⟨x, s₁, rfl, harr, rfl⟩ |
      ⟨x, s₁, t, ops, rfl, harr, ht, rfl⟩
    · exact hinv.exec hc hG hP hrun ht hex
    · exact hinv.exec hc hG hP hrun ht hex
    · exact hinv.arrive hrun harr
    · exact hinv.arrive hrun harr

/-- An event that answers a dial is the only one to do so. -/
theorem answered_alone {log later earlier : List Event} {e : Event} {r : DialID}
    (honce : answers log r ≤ 1) (hlog : log = later ++ e :: earlier)
    (he : e.answered = some r) : ∀ e' ∈ later, e'.answered ≠ some r := by
  intro e' he' hans
  have htwo : 2 ≤ answers log r := by
    unfold answers at *
    rw [hlog, List.filterMap_append, List.count_append, List.filterMap_cons, he,
      List.count_cons_self]
    have : 0 < (later.filterMap Event.answered).count r :=
      List.count_pos_iff.mpr (List.mem_filterMap.mpr ⟨e', he', hans⟩)
    omega
  omega

/-- Over any run in which no dial ID is used twice, whatever the agents and
the frontends send and whenever streams end or timers fire, a dial is
answered at most once, so nothing follows its first answer; and no
HTTP-CONNECT stream closes its `connected` channel twice. -/
theorem dial_answered_once {s : System.State ServerState Tid Op}
    (h : Reach (server cfg).step (System.Allowed (fun _ _ _ _ => True) DistinctDials)
      newServer s) :
    (∀ r, answers s.shared.log r ≤ 1) ∧
      (∀ later earlier e r, s.shared.log = later ++ e :: earlier → e.answered = some r →
        ∀ e' ∈ later, e'.answered ≠ some r) ∧
      s.shared.panic ≠ some .closeOfClosedChannel := by
  have hc := server_custody (fun _ _ h => h) h
  exact ⟨hc.once, fun later earlier e r hlog he => answered_alone (hc.once r) hlog he,
    (server_http (fun _ _ h => h) h).panic⟩

/-- An HTTP-CONNECT stream whose dial is answered twice by the agent and
withdrawn in between, with the timer firing after all of that. -/
theorem dial_answered_once_duplicate :
    let cfg : ServerConfig := ⟨fun _ => { id := "a" }, true⟩
    ∃ s : System.State ServerState Tid Op,
      Reach (server cfg).step (System.Allowed (fun _ _ _ _ => True) DistinctDials) newServer s ∧
        answers s.shared.log 10 = 1 ∧ (s.shared.streams "x").connected = true ∧
        (∀ r, answers s.shared.log r ≤ 1) ∧
        s.shared.panic ≠ some .closeOfClosedChannel := by
  intro cfg
  let rsp := Packet.ofDialResponse ⟨"", 1, 10⟩
  let acts : List (System.Action Tid ServerAction Choice) :=
    [.arrive (.connect 0), .arrive (.openStream "x" (some ⟨"h", 10⟩)),
      .arrive (.receive "x" (.ofDialRequest ⟨"tcp", "h", 10⟩)),
      .run (.proxy "x") { backend := some 0 }, .run (.proxy "x") {}, .run (.proxy "x") {},
      .run (.proxy "x") {}, .arrive (.deliver 0 rsp), .run (.dispatcher 0) {},
      .run (.dispatcher 0) {}, .run (.dispatcher 0) {}, .run (.dispatcher 0) {},
      .arrive (.deliver 0 rsp), .run (.dispatcher 0) {}, .run (.dispatcher 0) { ok := false },
      .arrive (.deliver 0 (.newDialClose 10)), .run (.dispatcher 0) {},
      .run (.timer 10) {}, .run (.timer 10) {}]
  have hrun : ∃ s, run (server cfg).step newServer acts = some s ∧
      answers s.shared.log 10 = 1 ∧ (s.shared.streams "x").connected = true :=
    ⟨_, rfl, rfl, rfl⟩
  obtain ⟨s, hs, h1, h2⟩ := hrun
  have hreach : Reach (server cfg).step (System.Allowed (fun _ _ _ _ => True) DistinctDials)
      newServer s := reach_of_run hs (by decide)
  obtain ⟨h3, -, h4⟩ := dial_answered_once hreach
  exact ⟨s, hreach, h1, h2, h3, h4⟩

end Konnectivity
