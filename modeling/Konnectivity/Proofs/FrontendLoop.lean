import Konnectivity.Server.FrontendLoop

/-!
# The discipline of a frontend session

The loop of `serveRecvFrontend` is followed twice. `Trace` is its log when it
stands between two iterations, and what an iteration adds is one of eleven
cases (`Iteration`); the properties of the log are proved by induction over
the iterations. `LoopInv` then ties the two goroutines to a trace: what the
handler still has to do completes its log to one.
-/

namespace Konnectivity.FrontendLoop

open Lib

/-! ## Reading a log -/

/-- The packets the loop took. -/
def receivedPackets (log : List Event) : List Packet :=
  log.filterMap fun e => match e with
    | .received pkt => some pkt
    | _ => none

/-- The backends `getBackend` returned. -/
def selectedBackends (log : List Event) : List BackendId :=
  log.filterMap fun e => match e with
    | .selected b => some b
    | _ => none

/-- What was sent to agents. -/
def toAgents (log : List Event) : List (BackendId × Packet) :=
  log.filterMap fun e => match e with
    | .toAgent b pkt _ => some (b, pkt)
    | _ => none

/-- The `DATA` packets that were forwarded. -/
def forwardedData (log : List Event) : List Packet :=
  ((toAgents log).map Prod.snd).filter fun pkt => pkt.type = .data

variable {log log' pre post events : List Event} {v v' : Vars} {goesOn : Bool} {f : Frontend}
  {pkt : Packet} {o : Outcome} {b : BackendId} {err : Option String}

@[simp] theorem receivedPackets_append :
    receivedPackets (log ++ log') = receivedPackets log ++ receivedPackets log' :=
  List.filterMap_append

@[simp] theorem selectedBackends_append :
    selectedBackends (log ++ log') = selectedBackends log ++ selectedBackends log' :=
  List.filterMap_append

@[simp] theorem toAgents_append : toAgents (log ++ log') = toAgents log ++ toAgents log' :=
  List.filterMap_append

@[simp] theorem forwardedData_append :
    forwardedData (log ++ log') = forwardedData log ++ forwardedData log' := by
  simp [forwardedData]

/-! ## One iteration -/

/-- The four packets that close two connections whose IDs do not match. -/
def closeBoth (b : BackendId) (connID firstConnID : ConnectID) (err err' : Option String) :
    List Event :=
  [.toAgent b (.newCloseRequest connID) err, .toAgent b (.newCloseRequest firstConnID) err',
    closeFrontend connID "mismatched connection IDs",
    closeFrontend firstConnID "mismatched connection IDs"]

/-- What an iteration can be. -/
inductive Iteration (v : Vars) (pkt : Packet) : Vars → List Event → Bool → Prop
  | noBackend {random : DialID} {msg : String} (ht : pkt.type = .dialReq) :
      Iteration v pkt { v with backend := none } [.toFrontend (.newDialFailure random msg)] false
  | dialed {b : BackendId} {random : DialID} {p : ProxyClientConnection}
      (ht : pkt.type = .dialReq) : Iteration v pkt { v with backend := some b }
        [.selected b, .pendingAdd random p, .toAgent b pkt none, .startPendingDialTimeout random b]
        true
  | dialFailed {b : BackendId} {random : DialID} {p : ProxyClientConnection} {msg : String}
      (ht : pkt.type = .dialReq) :
      Iteration v pkt { v with backend := some b }
        [.selected b, .pendingAdd random p, .toAgent b pkt (some msg), .pendingRemove random,
          .toFrontend (.newDialFailure random msg)] false
  | dialClaimed {b : BackendId} {random : DialID} {p : ProxyClientConnection} {msg : String}
      (ht : pkt.type = .dialReq) :
      Iteration v pkt { v with backend := some b }
        [.selected b, .pendingAdd random p, .toAgent b pkt (some msg), .pendingRemove random] true
  | closeEarly {connID : ConnectID} {reason : String} (hb : v.backend = none) :
      Iteration v pkt v [closeFrontend connID reason] true
  | closed {b : BackendId} {err : Option String} {failed : List Event} (ht : pkt.type = .closeReq)
      (hb : v.backend = some b)
      (hf : failed = [] ∨ ∃ connID reason, failed = [closeFrontend connID reason]) :
      Iteration v pkt v (.toAgent b pkt err :: failed) false
  | cancelled {random : DialID} (ht : pkt.type = .dialCls) :
      Iteration v pkt v [.pendingRemove random] true
  | dataEarly {connID : ConnectID} {reason : String} (hb : v.backend = none) :
      Iteration v pkt v [closeFrontend connID reason] false
  | ignored (ht : pkt.type ≠ .closeReq)
      (hd : pkt.type = .data → ∀ d, pkt.getData = some d → d.connectID = 0) :
      Iteration v pkt v [] true
  | first {b : BackendId} {d : Data} {err : Option String} (ht : pkt.type = .data)
      (hd : pkt.getData = some d) (hb : v.backend = some b) (hid : d.connectID ≠ 0)
      (hfirst : v.firstConnID = 0) :
      Iteration v pkt { v with firstConnID := d.connectID } [.toAgent b pkt err] true
  | again {b : BackendId} {d : Data} {err : Option String} (ht : pkt.type = .data)
      (hd : pkt.getData = some d) (hb : v.backend = some b) (hid : d.connectID ≠ 0)
      (hfirst : v.firstConnID = d.connectID) :
      Iteration v pkt v [.toAgent b pkt err] true
  | mismatch {b : BackendId} {d : Data} {err err' : Option String} (ht : pkt.type = .data)
      (hd : pkt.getData = some d) (hb : v.backend = some b) (hid : d.connectID ≠ 0)
      (hfirst : v.firstConnID ≠ 0) (hne : v.firstConnID ≠ d.connectID) :
      Iteration v pkt v (closeBoth b d.connectID v.firstConnID err err') false

theorem dial_cases {req : DialRequest} (ht : pkt.type = .dialReq)
    (h : dial f v pkt req o b = (v', events, goesOn)) : Iteration v pkt v' events goesOn := by
  unfold dial at h
  dsimp only at h
  split at h
  · next hsend =>
      cases h
      rw [hsend]
      exact .dialed ht
  · next msg hsend =>
      split at h
      · cases h
        rw [hsend]
        exact .dialFailed ht
      · cases h
        rw [hsend]
        exact .dialClaimed ht

theorem data_cases {d : Data} (ht : pkt.type = .data) (hd : pkt.getData = some d)
    (hb : v.backend = some b) (h : data v pkt d.connectID o b = (v', events, goesOn)) :
    Iteration v pkt v' events goesOn := by
  unfold data at h
  split at h
  · next hid =>
      cases h
      refine .ignored (by rw [ht]; simp) fun _ d' hd' => ?_
      rw [hd] at hd'
      cases hd'
      exact hid
  · next hid =>
      split at h
      · next hfirst =>
          cases h
          exact .first ht hd hb hid hfirst
      · next hfirst =>
          split at h
          · next hne =>
              cases h
              exact .mismatch ht hd hb hid hfirst hne
          · next hne =>
              cases h
              exact .again ht hd hb hid (not_not.mp hne)

theorem iterate_cases (h : iterate f v pkt o = some (v', events, goesOn)) :
    Iteration v pkt v' events goesOn := by
  unfold iterate at h
  split at h
  · next ht =>
      obtain ⟨req, -, heq⟩ := Option.map_eq_some_iff.mp h
      split at heq
      · cases heq
        exact .noBackend ht
      · exact dial_cases ht heq
  · next ht =>
      obtain ⟨req, -, heq⟩ := Option.map_eq_some_iff.mp h
      split at heq
      · next hb =>
          cases heq
          exact .closeEarly hb
      · next b hb =>
          cases heq
          refine .closed ht hb ?_
          split
          · exact Or.inr ⟨_, _, rfl⟩
          · exact Or.inl rfl
  · next ht =>
      obtain ⟨req, -, heq⟩ := Option.map_eq_some_iff.mp h
      cases heq
      exact .cancelled ht
  · next ht =>
      obtain ⟨d, hd, heq⟩ := Option.map_eq_some_iff.mp h
      split at heq
      · next hb =>
          cases heq
          exact .dataEarly hb
      · next b hb => exact data_cases ht hd hb heq
  · next hreq hclose hcls hdata =>
      cases h
      exact .ignored (fun ht => hclose ht) fun ht => absurd ht hdata

/-- A packet of the right kind is served. -/
theorem iterate_isSome (hwf : pkt.wellFormed = true) (v : Vars) (o : Outcome) :
    ∃ r, iterate f v pkt o = some r := by
  unfold iterate
  split
  · next ht =>
      rw [Packet.wellFormed, ht] at hwf
      obtain ⟨m, hm⟩ := Option.isSome_iff_exists.mp hwf
      rw [hm]
      exact ⟨_, rfl⟩
  · next ht =>
      rw [Packet.wellFormed, ht] at hwf
      obtain ⟨m, hm⟩ := Option.isSome_iff_exists.mp hwf
      rw [hm]
      exact ⟨_, rfl⟩
  · next ht =>
      rw [Packet.wellFormed, ht] at hwf
      obtain ⟨m, hm⟩ := Option.isSome_iff_exists.mp hwf
      rw [hm]
      exact ⟨_, rfl⟩
  · next ht =>
      rw [Packet.wellFormed, ht] at hwf
      obtain ⟨m, hm⟩ := Option.isSome_iff_exists.mp hwf
      rw [hm]
      exact ⟨_, rfl⟩
  · exact ⟨_, rfl⟩

/-! ## Traces -/

/-- The logs of the loop between two iterations, with its variables, and
whether it goes on. -/
inductive Trace : List Event → Vars → Bool → Prop
  | nil : Trace [] {} true
  | snoc {log events : List Event} {v v' : Vars} {pkt : Packet} {goesOn : Bool}
      (h : Trace log v true) (hit : Iteration v pkt v' events goesOn) :
      Trace (log ++ Event.received pkt :: events) v' goesOn

/-! ### Which agent -/

/-- The backend selected last. -/
def current (log : List Event) : Option BackendId := (selectedBackends log).getLast?

/-- Every packet for an agent goes to the backend selected last, starting with
one that was selected before. -/
def Directed : Option BackendId → List Event → Prop
  | _, [] => True
  | _, .selected b :: log => Directed (some b) log
  | cur, .toAgent b _ _ :: log => cur = some b ∧ Directed cur log
  | cur, _ :: log => Directed cur log

theorem getLast?_cons_or {α : Type} (a : α) (l : List α) (x : Option α) :
    ((a :: l).getLast?).or x = (l.getLast?).or (some a) := by
  cases l with
  | nil => rfl
  | cons a' l => simp [List.getLast?_cons]

theorem Directed.append {cur : Option BackendId} :
    ∀ {log : List Event}, Directed cur (log ++ log') ↔
      Directed cur log ∧ Directed ((current log).or cur) log' := by
  intro log
  induction log generalizing cur with
  | nil => exact ⟨fun h => ⟨trivial, h⟩, fun h => h.2⟩
  | cons e log ih =>
      cases e with
      | selected b =>
          have hcur : (current (.selected b :: log)).or cur = (current log).or (some b) :=
            getLast?_cons_or b (selectedBackends log) cur
          rw [hcur]
          exact ih
      | toAgent b pkt err =>
          show (cur = some b ∧ Directed cur (log ++ log')) ↔ (cur = some b ∧ Directed cur log) ∧ _
          rw [ih, and_assoc]
          rfl
      | _ => exact ih

theorem Directed.toAgent (h : Directed none (pre ++ Event.toAgent b pkt err :: post)) :
    current pre = some b := by
  have hcur := (Directed.append.mp h).2.1
  rwa [Option.or_none] at hcur

theorem Iteration.directed (h : Iteration v pkt v' events goesOn) :
    Directed v.backend events ∧
      (goesOn = true → v'.backend = (current events).or v.backend) := by
  cases h with
  | noBackend ht => exact ⟨trivial, fun h => nomatch h⟩
  | dialed ht => exact ⟨⟨rfl, trivial⟩, fun _ => rfl⟩
  | dialFailed ht => exact ⟨⟨rfl, trivial⟩, fun h => nomatch h⟩
  | dialClaimed ht => exact ⟨⟨rfl, trivial⟩, fun _ => rfl⟩
  | closeEarly hb => exact ⟨trivial, fun _ => rfl⟩
  | closed ht hb hf =>
      refine ⟨⟨hb, ?_⟩, fun h => nomatch h⟩
      rcases hf with rfl | ⟨connID, reason, rfl⟩ <;> trivial
  | cancelled ht => exact ⟨trivial, fun _ => rfl⟩
  | dataEarly hb => exact ⟨trivial, fun h => nomatch h⟩
  | ignored ht hd => exact ⟨trivial, fun _ => rfl⟩
  | first ht hd hb hid hfirst => exact ⟨⟨hb, trivial⟩, fun _ => rfl⟩
  | again ht hd hb hid hfirst => exact ⟨⟨hb, trivial⟩, fun _ => rfl⟩
  | mismatch ht hd hb hid hfirst hne => exact ⟨⟨hb, hb, trivial⟩, fun h => nomatch h⟩

theorem Trace.directed (h : Trace log v goesOn) :
    Directed none log ∧ (goesOn = true → v.backend = current log) := by
  induction h with
  | nil => exact ⟨trivial, fun _ => rfl⟩
  | @snoc log events v v' pkt goesOn h hit ih =>
      obtain ⟨hdir, hcur⟩ := hit.directed
      have hv := ih.2 rfl
      refine ⟨Directed.append.mpr ⟨ih.1, ?_⟩, fun hgo => ?_⟩
      · rw [Option.or_none, ← hv]
        exact hdir
      · rw [hcur hgo, hv]
        unfold current
        rw [selectedBackends_append, List.getLast?_append]
        rfl

/-! ### Which connection -/

/-- What an iteration forwards of the data. -/
theorem Iteration.data (h : Iteration v pkt v' events goesOn) :
    (v.firstConnID ≠ 0 → v'.firstConnID = v.firstConnID) ∧
      (forwardedData events = [] ∨ forwardedData events = [pkt] ∧
        ∃ d, pkt.getData = some d ∧ d.connectID = v'.firstConnID ∧ v'.firstConnID ≠ 0) := by
  cases h with
  | noBackend ht => exact ⟨fun _ => rfl, Or.inl rfl⟩
  | dialed ht => exact ⟨fun _ => rfl, Or.inl (by simp [forwardedData, toAgents, ht])⟩
  | dialFailed ht => exact ⟨fun _ => rfl, Or.inl (by simp [forwardedData, toAgents, ht])⟩
  | dialClaimed ht => exact ⟨fun _ => rfl, Or.inl (by simp [forwardedData, toAgents, ht])⟩
  | closeEarly hb => exact ⟨fun _ => rfl, Or.inl rfl⟩
  | closed ht hb hf =>
      refine ⟨fun _ => rfl, Or.inl ?_⟩
      rcases hf with rfl | ⟨connID, reason, rfl⟩ <;>
        simp [forwardedData, toAgents, closeFrontend, ht]
  | cancelled ht => exact ⟨fun _ => rfl, Or.inl rfl⟩
  | dataEarly hb => exact ⟨fun _ => rfl, Or.inl rfl⟩
  | ignored ht hd => exact ⟨fun _ => rfl, Or.inl rfl⟩
  | first ht hd hb hid hfirst =>
      exact ⟨fun hne => absurd hfirst hne,
        Or.inr ⟨by simp [forwardedData, toAgents, ht], _, hd, rfl, hid⟩⟩
  | again ht hd hb hid hfirst =>
      refine ⟨fun _ => rfl, Or.inr ⟨by simp [forwardedData, toAgents, ht], _, hd, hfirst.symm, ?_⟩⟩
      rw [hfirst]
      exact hid
  | mismatch ht hd hb hid hfirst hne => exact ⟨fun _ => rfl, Or.inl rfl⟩

/-- The packet carries data of this connection. -/
def CarriesID (connID : ConnectID) (pkt : Packet) : Prop :=
  ∃ d, pkt.getData = some d ∧ d.connectID = connID

theorem Trace.data (h : Trace log v goesOn) :
    (∀ p ∈ forwardedData log, CarriesID v.firstConnID p ∧ v.firstConnID ≠ 0) ∧
      (forwardedData log).Sublist (receivedPackets log) := by
  induction h with
  | nil => exact ⟨fun p hp => (by cases hp), .slnil⟩
  | @snoc log events v v' pkt goesOn h hit ih =>
      obtain ⟨hkept, hnew⟩ := hit.data
      have hlog : forwardedData (log ++ Event.received pkt :: events) =
          forwardedData log ++ forwardedData events := forwardedData_append
      have hrecv : receivedPackets (log ++ Event.received pkt :: events) =
          receivedPackets log ++ pkt :: receivedPackets events := receivedPackets_append
      refine ⟨fun p hp => ?_, ?_⟩
      · rw [hlog, List.mem_append] at hp
        rcases hp with hp | hp
        · obtain ⟨hid, hne⟩ := ih.1 p hp
          rw [hkept hne]
          exact ⟨hid, hne⟩
        · rcases hnew with hnone | ⟨hone, d, hd, hid, hne⟩
          · rw [hnone] at hp
            cases hp
          · rw [hone, List.mem_singleton] at hp
            subst hp
            exact ⟨⟨d, hd, hid⟩, hne⟩
      · rw [hlog, hrecv]
        refine ih.2.append ?_
        rcases hnew with hnone | ⟨hone, -⟩
        · rw [hnone]
          exact List.nil_sublist _
        · rw [hone]
          exact (List.nil_sublist _).cons_cons _

/-! ### The last iteration -/

theorem Iteration.silent (h : Iteration v pkt v' events goesOn) : receivedPackets events = [] := by
  cases h with
  | closed ht hb hf => rcases hf with rfl | ⟨connID, reason, rfl⟩ <;> rfl
  | _ => rfl

theorem received_mem (h : receivedPackets events = []) (pkt : Packet) :
    .received pkt ∉ events := by
  intro hmem
  have : pkt ∈ receivedPackets events := List.mem_filterMap.mpr ⟨_, hmem, rfl⟩
  rw [h] at this
  cases this

/-- An iteration found in a trace; the one that ends the loop is the last. -/
theorem Trace.split (h : Trace log v goesOn) (hlog : log = pre ++ Event.received pkt :: post) :
    ∃ v₀ v₁ events goesOn', Trace pre v₀ true ∧ Iteration v₀ pkt v₁ events goesOn' ∧
      events <+: post ∧ (goesOn' = false → post = events ∧ goesOn = false) := by
  induction h generalizing post with
  | nil =>
      have hlen := congrArg List.length hlog
      rw [List.length_append] at hlen
      cases hlen
  | @snoc log events v v' pkt' goesOn h hit ih =>
      have hlast : ∀ {rest : List Event}, pre = log ++ rest →
          .received pkt' :: events = rest ++ Event.received pkt :: post →
          ∃ v₀ v₁ events goesOn', Trace pre v₀ true ∧ Iteration v₀ pkt v₁ events goesOn' ∧
            events <+: post ∧ (goesOn' = false → post = events ∧ goesOn = false) := by
        intro rest hpre hrest
        cases rest with
        | nil =>
            cases hrest
            rw [List.append_nil] at hpre
            subst hpre
            exact ⟨v, v', events, goesOn, h, hit, List.prefix_rfl, fun hgo => ⟨rfl, hgo⟩⟩
        | cons e rest =>
            rw [List.cons_append] at hrest
            injection hrest with _ hrest
            refine absurd ?_ (received_mem hit.silent pkt)
            rw [hrest]
            exact List.mem_append_right _ List.mem_cons_self
      rcases List.append_eq_append_iff.mp hlog with ⟨rest, hpre, hrest⟩ | ⟨rest, hpre, hrest⟩
      · exact hlast hpre hrest
      · cases rest with
        | nil =>
            rw [List.append_nil] at hpre
            exact hlast (by rw [hpre, List.append_nil] : pre = log ++ []) hrest.symm
        | cons e rest =>
            rw [List.cons_append] at hrest
            injection hrest with he hpost
            subst he
            obtain ⟨v₀, v₁, events', goesOn', htrace, hit', hpref, hend⟩ := ih hpre
            refine ⟨v₀, v₁, events', goesOn', htrace, hit', ?_, fun hgo => ?_⟩
            · rw [hpost]
              exact hpref.trans (List.prefix_append _ _)
            · exact absurd (hend hgo).2 (by simp)

/-- Data has been forwarded only if there is a backend. -/
theorem Trace.backend (h : Trace log v goesOn) :
    goesOn = true → v.firstConnID ≠ 0 → v.backend ≠ none := by
  induction h with
  | nil => exact fun _ hne => absurd rfl hne
  | snoc h hit ih =>
      intro hgo
      cases hit with
      | noBackend ht | dialFailed ht => cases hgo
      | first ht hd hb hid hfirst =>
          intro _ hnone
          rw [show _ = none from hnone] at hb
          cases hb
      | dialed ht | dialClaimed ht => exact fun _ => by simp
      | _ => exact ih rfl

/-- Data of another connection ends the loop with four packets. -/
theorem Trace.mismatch (h : Trace log v goesOn) (hlog : log = pre ++ Event.received pkt :: post)
    {d : Data} (ht : pkt.type = .data) (hd : pkt.getData = some d) (hid : d.connectID ≠ 0)
    {p : Packet} {connID : ConnectID} (hp : p ∈ forwardedData pre) (hc : CarriesID connID p)
    (hne : connID ≠ d.connectID) :
    ∃ b err err', current pre = some b ∧ post = closeBoth b d.connectID connID err err' := by
  obtain ⟨v₀, v₁, events, goesOn', htrace, hit, -, hend⟩ := h.split hlog
  obtain ⟨⟨d', hd', hid'⟩, hfirst⟩ := htrace.data.1 p hp
  obtain ⟨d'', hd'', hid''⟩ := hc
  rw [hd'] at hd''
  cases hd''
  have hconn : v₀.firstConnID = connID := hid'.symm.trans hid''
  have hback := htrace.backend rfl hfirst
  have hcur := htrace.directed.2 rfl
  have hother : ∀ d₁, pkt.getData = some d₁ → d₁ = d := by
    intro d₁ hd₁
    rw [hd] at hd₁
    exact (Option.some.inj hd₁).symm
  cases hit with
  | noBackend ht' | dialed ht' | dialFailed ht' | dialClaimed ht' | cancelled ht' =>
      rw [ht] at ht'
      cases ht'
  | closed ht' hb hf =>
      rw [ht] at ht'
      cases ht'
  | closeEarly hb | dataEarly hb => exact absurd hb hback
  | ignored ht' hzero => exact absurd (hzero ht d hd) hid
  | first ht' hd₁ hb hid₁ hzero => exact absurd hzero hfirst
  | again ht' hd₁ hb hid₁ hsame =>
      rw [hother _ hd₁, hconn] at hsame
      exact absurd hsame hne
  | mismatch ht' hd₁ hb hid₁ hfirst₁ hne₁ =>
      obtain rfl := hother _ hd₁
      rw [← hcur, hb, (hend rfl).1, hconn]
      exact ⟨_, _, _, rfl, rfl⟩

/-- A `CLOSE_REQ` ends the loop once there is a backend. -/
theorem Trace.closed (h : Trace log v goesOn) (hlog : log = pre ++ Event.received pkt :: post)
    (ht : pkt.type = .closeReq) (hb : current pre = some b) :
    toAgents post = [(b, pkt)] ∧ receivedPackets post = [] := by
  obtain ⟨v₀, v₁, events, goesOn', htrace, hit, -, hend⟩ := h.split hlog
  have hcur := htrace.directed.2 rfl
  rw [hb] at hcur
  have hsilent := hit.silent
  cases hit with
  | noBackend ht' | dialed ht' | dialFailed ht' | dialClaimed ht' | cancelled ht' =>
      rw [ht] at ht'
      cases ht'
  | closeEarly hb' | dataEarly hb' =>
      rw [hcur] at hb'
      cases hb'
  | ignored ht' hzero => exact absurd ht ht'
  | first ht' _ _ _ _ | again ht' _ _ _ _ =>
      rw [ht] at ht'
      cases ht'
  | mismatch ht' _ _ _ _ _ =>
      rw [ht] at ht'
      cases ht'
  | closed ht' hb' hf =>
      rw [hcur] at hb'
      cases hb'
      rw [(hend rfl).1]
      refine ⟨?_, hsilent⟩
      rcases hf with rfl | ⟨connID, reason, rfl⟩ <;> rfl

/-- A `DIAL_RSP`, which in this loop reports a failure. -/
def Event.fails : Event → Bool
  | .toFrontend pkt => pkt.type = .dialRsp
  | _ => false

theorem Iteration.fails (h : Iteration v pkt v' events goesOn) :
    (goesOn = true → ∀ e ∈ events, e.fails = false) ∧
      Pool.Each (fun e rest => e.fails = true → rest = []) events := by
  cases h with
  | noBackend ht => exact ⟨(fun h => nomatch h), fun _ => rfl, trivial⟩
  | dialFailed ht =>
      exact ⟨(fun h => nomatch h), (fun h => nomatch h), (fun h => nomatch h),
        (fun h => nomatch h), (fun h => nomatch h), fun _ => rfl, trivial⟩
  | closed ht hb hf =>
      refine ⟨(fun h => nomatch h), (fun h => nomatch h), ?_⟩
      rcases hf with rfl | ⟨connID, reason, rfl⟩
      · trivial
      · exact ⟨(fun h => nomatch h), trivial⟩
  | dialed ht | dialClaimed ht =>
      exact ⟨fun _ => by simp [Event.fails], (fun h => nomatch h), (fun h => nomatch h),
        (fun h => nomatch h), (fun h => nomatch h), trivial⟩
  | closeEarly hb | cancelled ht | dataEarly hb =>
      exact ⟨fun _ => by simp [Event.fails, closeFrontend, Packet.ofCloseResponse],
        (fun h => nomatch h), trivial⟩
  | ignored ht hd => exact ⟨fun _ => by simp, trivial⟩
  | first _ _ _ _ _ | again _ _ _ _ _ =>
      exact ⟨fun _ => by simp [Event.fails], (fun h => nomatch h), trivial⟩
  | mismatch _ _ _ _ _ _ =>
      exact ⟨(fun h => nomatch h), (fun h => nomatch h), (fun h => nomatch h),
        (fun h => nomatch h), (fun h => nomatch h), trivial⟩

/-- After a failed dial was answered nothing more is done. -/
theorem Trace.fails (h : Trace log v goesOn) :
    (goesOn = true → ∀ e ∈ log, e.fails = false) ∧
      Pool.Each (fun e rest => e.fails = true → rest = []) log := by
  induction h with
  | nil => exact ⟨(fun _ e he => nomatch he), trivial⟩
  | @snoc log events v v' pkt goesOn h hit ih =>
      obtain ⟨hgo, heach⟩ := hit.fails
      refine ⟨fun hg e he => ?_, ?_⟩
      · rcases List.mem_append.mp he with he | he
        · exact ih.1 rfl e he
        · rcases List.mem_cons.mp he with rfl | he
          · rfl
          · exact hgo hg e he
      · have hlog : ∀ l : List Event, (∀ e ∈ l, e.fails = false) →
            Pool.Each (fun e rest => e.fails = true → rest = [])
              (l ++ Event.received pkt :: events) := by
          intro l
          induction l with
          | nil => exact fun _ => ⟨(fun h => nomatch h), heach⟩
          | cons e l ihl =>
              intro hl
              refine ⟨fun he => ?_, ihl fun e' he' => hl e' (List.mem_cons_of_mem _ he')⟩
              rw [hl e List.mem_cons_self] at he
              cases he
        exact hlog log (ih.1 rfl)

/-! ## The two goroutines -/

/-- The places of the handler: what it has yet to do completes its log. -/
inductive Handling (s : LoopState) : List Op → Prop
  | loop (h : Trace s.log s.vars true) (hkept : s.discarded = []) : Handling s [.loop]
  | body {log : List Event} {pkt : Packet} (hlog : s.log = log ++ [.received pkt])
      (h : Trace log s.vars true) (hkept : s.discarded = []) (hwf : pkt.wellFormed = true) :
      Handling s [.body pkt]
  | emitting {events : List Event} {goesOn : Bool} (h : Trace (s.log ++ events) s.vars goesOn)
      (hkept : s.discarded = []) (hsilent : receivedPackets events = []) :
      Handling s (events.map .emit ++ [.next goesOn])
  | discarding {goesOn : Bool} (h : Trace s.log s.vars goesOn) : Handling s [.discard]
  | returned {goesOn : Bool} (h : Trace s.log s.vars goesOn) (hclosed : s.recvCh.closed = true)
      (hempty : s.recvCh.buf = []) : Handling s []

/-- The places of the reader. -/
inductive Reading (s : LoopState) : List Op → Prop
  | idle (hopen : s.recvEnded = false) (hch : s.recvCh.closed = false)
      (hstop : s.stopCh = ⟨1, [], false⟩) : Reading s []
  | sending {pkt : Packet} (hopen : s.recvEnded = false) (hch : s.recvCh.closed = false)
      (hstop : s.stopCh = ⟨1, [], false⟩) : Reading s [.recvChSend pkt]
  | failing {msg : String} (hopen : s.recvEnded = true) (hch : s.recvCh.closed = false)
      (hstop : s.stopCh = ⟨1, [], false⟩) :
      Reading s [.stopChSend msg, .closeRecvCh, .closeStopCh]
  | closing (hopen : s.recvEnded = true) (hch : s.recvCh.closed = false)
      (hstop : s.stopCh.closed = false) : Reading s [.closeRecvCh, .closeStopCh]
  | stopping (hopen : s.recvEnded = true) (hch : s.recvCh.closed = true)
      (hstop : s.stopCh.closed = false) : Reading s [.closeStopCh]
  | ended (hopen : s.recvEnded = true) (hch : s.recvCh.closed = true) : Reading s []

/-- The packet the reader has read and not put into the channel. -/
def inHand : List Op → List Packet
  | [.recvChSend pkt] => [pkt]
  | _ => []

structure LoopInv (n : Nat) (s : System.State LoopState Tid Op) : Prop where
  handling : Handling s.shared (s.threads .handler)
  reading : Reading s.shared (s.threads .reader)
  /-- Every packet of the stream is somewhere, in order. -/
  packets : receivedPackets s.shared.log ++ s.shared.discarded ++ s.shared.recvCh.buf ++
    inHand (s.threads .reader) = s.shared.stream
  wellFormed : ∀ pkt ∈ s.shared.stream, pkt.wellFormed = true
  cap : s.shared.recvCh.cap = n
  panic : s.shared.panic = none

variable {n : Nat} {s : System.State LoopState Tid Op} {s₁ : LoopState} {c : Outcome} {op : Op}
  {ops rest : List Op} {start : Option (Tid × List Op)}

theorem Handling.frame {s s₁ : LoopState} (h : Handling s ops) (hlog : s₁.log = s.log)
    (hvars : s₁.vars = s.vars) (hkept : s₁.discarded = s.discarded)
    (hch : s.recvCh.closed = true → s₁.recvCh.closed = true ∧ s₁.recvCh.buf = s.recvCh.buf) :
    Handling s₁ ops := by
  cases h with
  | loop h hk => exact .loop (by rw [hlog, hvars]; exact h) (hkept.trans hk)
  | body hl h hk hwf =>
      exact .body (hlog.trans hl) (by rw [hvars]; exact h) (hkept.trans hk) hwf
  | emitting h hk hs => exact .emitting (by rw [hlog, hvars]; exact h) (hkept.trans hk) hs
  | discarding h => exact .discarding (by rw [hlog, hvars]; exact h)
  | returned h hclosed hempty =>
      obtain ⟨hclosed', hbuf⟩ := hch hclosed
      exact .returned (by rw [hlog, hvars]; exact h) hclosed' (hbuf.trans hempty)

theorem Reading.frame {s s₁ : LoopState} (h : Reading s ops) (hended : s₁.recvEnded = s.recvEnded)
    (hclosed : s₁.recvCh.closed = s.recvCh.closed) (hstop : s₁.stopCh = s.stopCh) :
    Reading s₁ ops := by
  cases h with
  | idle h1 h2 h3 => exact .idle (hended.trans h1) (hclosed.trans h2) (hstop.trans h3)
  | sending h1 h2 h3 => exact .sending (hended.trans h1) (hclosed.trans h2) (hstop.trans h3)
  | failing h1 h2 h3 => exact .failing (hended.trans h1) (hclosed.trans h2) (hstop.trans h3)
  | closing h1 h2 h3 =>
      exact .closing (hended.trans h1) (hclosed.trans h2) (by rw [hstop]; exact h3)
  | stopping h1 h2 h3 =>
      exact .stopping (hended.trans h1) (hclosed.trans h2) (by rw [hstop]; exact h3)
  | ended h1 h2 => exact .ended (hended.trans h1) (hclosed.trans h2)

/-! ### The handler -/

theorem LoopInv.handler_step (h : LoopInv n s) (hhandling : Handling s₁ ops)
    (hended : s₁.recvEnded = s.shared.recvEnded)
    (hclosed : s₁.recvCh.closed = s.shared.recvCh.closed)
    (hstop : s₁.stopCh = s.shared.stopCh) (hstream : s₁.stream = s.shared.stream)
    (hcap : s₁.recvCh.cap = s.shared.recvCh.cap) (hpanic : s₁.panic = none)
    (hpackets : receivedPackets s₁.log ++ s₁.discarded ++ s₁.recvCh.buf =
      receivedPackets s.shared.log ++ s.shared.discarded ++ s.shared.recvCh.buf) :
    LoopInv n ⟨s₁, Function.update s.threads .handler ops⟩ where
  handling := by
    dsimp only
    rw [Function.update_self]
    exact hhandling
  reading := by
    dsimp only
    rw [Function.update_of_ne (by simp)]
    exact h.reading.frame hended hclosed hstop
  packets := by
    dsimp only
    rw [Function.update_of_ne (by simp), hpackets, hstream]
    exact h.packets
  wellFormed := by
    dsimp only
    rw [hstream]
    exact h.wellFormed
  cap := hcap.trans h.cap
  panic := hpanic

/-- The packet at the head of the channel is one of the stream. -/
theorem LoopInv.head (h : LoopInv n s) {buf : List Packet}
    (hbuf : s.shared.recvCh.buf = pkt :: buf) : pkt.wellFormed = true := by
  refine h.wellFormed pkt ?_
  rw [← h.packets, hbuf]
  simp

theorem LoopInv.exec_loop (h : LoopInv n s) (htrace : Trace s.shared.log s.shared.vars true)
    (hkept : s.shared.discarded = [])
    (hex : exec f s.shared .handler c .loop = some (s₁, ops, start)) :
    start = none ∧ LoopInv n ⟨s₁, Function.update s.threads .handler ops⟩ := by
  simp only [exec] at hex
  split at hex
  · cases hex
  · next ch hrecv =>
      cases hex
      exact ⟨rfl, h.handler_step (.discarding htrace) rfl rfl rfl rfl rfl h.panic rfl⟩
  · next pkt ch hrecv =>
      cases hex
      rcases GoChan.recv_cases hrecv with ⟨pkt', buf, hbuf, hpkt, rfl⟩ | ⟨-, -, hnone, -⟩
      · cases hpkt
        refine ⟨rfl, h.handler_step (.body rfl htrace hkept (h.head hbuf)) rfl rfl rfl rfl rfl
          h.panic ?_⟩
        dsimp only
        rw [receivedPackets_append, hbuf, hkept, List.append_nil, List.append_nil,
          List.append_assoc]
        rfl
      · cases hnone

theorem LoopInv.exec_discard (h : LoopInv n s) {goesOn : Bool}
    (htrace : Trace s.shared.log s.shared.vars goesOn)
    (hex : exec f s.shared .handler c .discard = some (s₁, ops, start)) :
    start = none ∧ LoopInv n ⟨s₁, Function.update s.threads .handler ops⟩ := by
  simp only [exec] at hex
  split at hex
  · cases hex
  · next ch hrecv =>
      cases hex
      rcases GoChan.recv_cases hrecv with ⟨pkt', buf, -, hpkt, -⟩ | ⟨hbuf, hclosed, -, -⟩
      · cases hpkt
      · exact ⟨rfl, h.handler_step (.returned htrace hclosed hbuf) rfl rfl rfl rfl rfl h.panic rfl⟩
  · next pkt ch hrecv =>
      cases hex
      rcases GoChan.recv_cases hrecv with ⟨pkt', buf, hbuf, hpkt, rfl⟩ | ⟨-, -, hnone, -⟩
      · cases hpkt
        refine ⟨rfl, h.handler_step (.discarding htrace) rfl rfl rfl rfl rfl h.panic ?_⟩
        dsimp only
        rw [hbuf, List.append_assoc, List.append_assoc, List.append_assoc]
        rfl
      · cases hnone

theorem LoopInv.exec_handler (h : LoopInv n s) (ht : s.threads .handler = op :: rest)
    (hex : exec f s.shared .handler c op = some (s₁, ops, start)) :
    start = none ∧ LoopInv n ⟨s₁, Function.update s.threads .handler (ops ++ rest)⟩ := by
  have hplace := h.handling
  rw [ht] at hplace
  generalize hl : op :: rest = l at hplace
  cases hplace with
  | loop htrace hkept =>
      cases hl
      rw [List.append_nil]
      exact h.exec_loop htrace hkept hex
  | @body log pkt hlog htrace hkept hwf =>
      cases hl
      simp only [exec] at hex
      split at hex
      · next hnone =>
          obtain ⟨r, hr⟩ := iterate_isSome (f := f) hwf s.shared.vars c
          rw [hr] at hnone
          cases hnone
      · next v events goesOn hit =>
          cases hex
          have hnew : Trace (s.shared.log ++ events) v goesOn := by
            rw [hlog, List.append_assoc]
            exact .snoc htrace (iterate_cases hit)
          rw [List.append_nil]
          exact ⟨rfl, h.handler_step (.emitting hnew hkept (iterate_cases hit).silent) rfl rfl rfl
            rfl rfl h.panic rfl⟩
  | @emitting events goesOn htrace hkept hsilent =>
      cases events with
      | nil =>
          cases hl
          cases hex
          rw [List.append_nil] at htrace ⊢
          cases goesOn with
          | true =>
              exact ⟨rfl, h.handler_step (.loop htrace hkept) rfl rfl rfl rfl rfl h.panic rfl⟩
          | false =>
              exact ⟨rfl, h.handler_step (.discarding htrace) rfl rfl rfl rfl rfl h.panic rfl⟩
      | cons e events =>
          cases hl
          cases hex
          have hnew : Trace ((s.shared.log ++ [e]) ++ events) s.shared.vars goesOn := by
            rw [List.append_assoc]
            exact htrace
          obtain ⟨hone, hrest⟩ : receivedPackets [e] = [] ∧ receivedPackets events = [] :=
            List.append_eq_nil_iff.mp (receivedPackets_append.symm.trans hsilent)
          refine ⟨rfl, h.handler_step (.emitting hnew hkept hrest) rfl rfl rfl rfl rfl h.panic ?_⟩
          dsimp only
          rw [receivedPackets_append, hone, List.append_nil]
  | discarding htrace =>
      cases hl
      rw [List.append_nil]
      exact h.exec_discard htrace hex
  | returned htrace hclosed hempty => cases hl

/-! ### The reader -/

theorem LoopInv.reader_step (h : LoopInv n s) (hreading : Reading s₁ ops)
    (hlog : s₁.log = s.shared.log) (hvars : s₁.vars = s.shared.vars)
    (hkept : s₁.discarded = s.shared.discarded) (hcap : s₁.recvCh.cap = s.shared.recvCh.cap)
    (hch : s.shared.recvCh.closed = true →
      s₁.recvCh.closed = true ∧ s₁.recvCh.buf = s.shared.recvCh.buf)
    (hpackets : receivedPackets s.shared.log ++ s.shared.discarded ++ s₁.recvCh.buf ++ inHand ops =
      s₁.stream)
    (hwf : ∀ pkt ∈ s₁.stream, pkt.wellFormed = true) (hpanic : s₁.panic = none) :
    LoopInv n ⟨s₁, Function.update s.threads .reader ops⟩ where
  handling := by
    dsimp only
    rw [Function.update_of_ne (by simp)]
    exact h.handling.frame hlog hvars hkept hch
  reading := by
    dsimp only
    rw [Function.update_self]
    exact hreading
  packets := by
    dsimp only
    rw [Function.update_self, hlog, hkept]
    exact hpackets
  wellFormed := hwf
  cap := hcap.trans h.cap
  panic := hpanic

theorem LoopInv.exec_reader (h : LoopInv n s) (ht : s.threads .reader = op :: rest)
    (hex : exec f s.shared .reader c op = some (s₁, ops, start)) :
    start = none ∧ LoopInv n ⟨s₁, Function.update s.threads .reader (ops ++ rest)⟩ := by
  have hplace := h.reading
  have hpackets := h.packets
  rw [ht] at hplace hpackets
  generalize hl : op :: rest = l at hplace hpackets
  cases hplace with
  | idle hopen hch hstop => cases hl
  | @sending pkt hopen hch hstop =>
      cases hl
      simp only [exec, GoChan.send, hch, Bool.false_eq_true, if_false] at hex
      split at hex
      · cases hex
      · next heq => split at heq <;> cases heq
      · next heq =>
          split at heq
          · cases heq
            cases hex
            refine ⟨rfl, h.reader_step (.idle hopen rfl hstop) rfl rfl rfl rfl (fun hc => ?_) ?_
              h.wellFormed h.panic⟩
            · rw [hch] at hc
              cases hc
            · rw [← hpackets]
              simp [inHand]
          · cases heq
  | @failing msg hopen hch hstop =>
      cases hl
      simp only [exec, GoChan.send, hstop] at hex
      cases hex
      exact ⟨rfl, h.reader_step (.closing hopen hch rfl) rfl rfl rfl rfl (fun hc => ⟨hc, rfl⟩)
        hpackets h.wellFormed h.panic⟩
  | closing hopen hch hstop =>
      cases hl
      simp only [exec, GoChan.close, hch] at hex
      cases hex
      refine ⟨rfl, h.reader_step (.stopping hopen rfl hstop) rfl rfl rfl rfl (fun _ => ⟨rfl, rfl⟩)
        hpackets h.wellFormed h.panic⟩
  | stopping hopen hch hstop =>
      cases hl
      simp only [exec, GoChan.close, hstop] at hex
      cases hex
      exact ⟨rfl, h.reader_step (.ended hopen hch) rfl rfl rfl rfl (fun hc => ⟨hc, rfl⟩)
        hpackets h.wellFormed h.panic⟩
  | ended hopen hch => cases hl

/-- The frontend sends packets whose payload is of the kind their type
announces. -/
def okRecv (_ : LoopState) : Recv → Prop
  | .packet pkt => pkt.wellFormed = true
  | _ => True

instance : ∀ s a, Decidable (okRecv s a)
  | _, .packet pkt => inferInstanceAs (Decidable (pkt.wellFormed = true))
  | _, .eof => isTrue trivial
  | _, .err _ => isTrue trivial

theorem LoopInv.arrive (h : LoopInv n s) {a : Recv} (hok : okRecv s.shared a)
    (harr : arrive s.shared a = some (s₁, start)) {threads : Tid → List Op}
    (hthreads : Pool.Arrived s.threads start threads) : LoopInv n ⟨s₁, threads⟩ := by
  have hidle : ∀ {l : List Op}, start = some (.reader, l) → s.shared.recvEnded = false →
      threads = Function.update s.threads .reader l ∧
      s.shared.recvCh.closed = false ∧ s.shared.stopCh = ⟨1, [], false⟩ ∧
      receivedPackets s.shared.log ++ s.shared.discarded ++ s.shared.recvCh.buf =
        s.shared.stream := by
    rintro l rfl hopen
    obtain ⟨ht, rfl⟩ := hthreads
    have hplace := h.reading
    have hpackets := h.packets
    rw [ht] at hplace hpackets
    cases hplace with
    | idle _ hch hstop => exact ⟨rfl, hch, hstop, (List.append_nil _).symm.trans hpackets⟩
    | ended hend _ =>
        rw [hopen] at hend
        cases hend
  cases a with
  | packet pkt =>
      simp only [FrontendLoop.arrive] at harr
      split at harr
      · cases harr
      · next hopen =>
          cases harr
          obtain ⟨rfl, hch, hstop, hpackets⟩ := hidle rfl (Bool.eq_false_iff.mpr hopen)
          refine h.reader_step (.sending (Bool.eq_false_iff.mpr hopen) hch hstop) rfl rfl rfl rfl
            (fun hc => ⟨hc, rfl⟩) ?_ (fun p hp => ?_) h.panic
          · dsimp only
            rw [hpackets]
            rfl
          · rcases List.mem_append.mp hp with hp | hp
            · exact h.wellFormed p hp
            · rw [List.mem_singleton.mp hp]
              exact hok
  | eof =>
      simp only [FrontendLoop.arrive] at harr
      split at harr
      · cases harr
      · next hopen =>
          cases harr
          obtain ⟨rfl, hch, hstop, hpackets⟩ := hidle rfl (Bool.eq_false_iff.mpr hopen)
          exact h.reader_step (.closing rfl hch (by rw [hstop])) rfl rfl rfl rfl
            (fun hc => ⟨hc, rfl⟩) ((List.append_nil _).trans hpackets) h.wellFormed h.panic
  | err msg =>
      simp only [FrontendLoop.arrive] at harr
      split at harr
      · cases harr
      · next hopen =>
          cases harr
          obtain ⟨rfl, hch, hstop, hpackets⟩ := hidle rfl (Bool.eq_false_iff.mpr hopen)
          exact h.reader_step (.failing rfl hch hstop) rfl rfl rfl rfl
            (fun hc => ⟨hc, rfl⟩) ((List.append_nil _).trans hpackets) h.wellFormed h.panic

/-! ## Runs -/

/-- Any run in which the frontend sends well-formed packets. -/
abbrev wellFormedRun := System.Allowed
  (fun (_ : LoopState) (_ : Tid) (_ : Outcome) (_ : Op) => True) okRecv

theorem loop_inv (h : Reach (proxy f).step wellFormedRun (newProxy n) s) : LoopInv n s := by
  refine System.invariant_state (LoopInv n) ?_ ?_ ?_ h
  · exact ⟨.loop .nil rfl, .idle rfl rfl rfl, rfl, (fun pkt hp => nomatch hp), rfl, rfl⟩
  · intro s t c o rest s₁ ops start _ hinv _ ht _ hex
    cases t with
    | reader =>
        obtain ⟨rfl, hnew⟩ := hinv.exec_reader ht hex
        exact hnew
    | handler =>
        obtain ⟨rfl, hnew⟩ := hinv.exec_handler ht hex
        exact hnew
  · intro s a s₁ start threads _ hinv _ hok harr hthreads
    exact hinv.arrive hok harr hthreads

/-- The handler is inside an iteration. -/
def inIteration : List Op → Bool
  | .body _ :: _ | .emit _ :: _ | .next _ :: _ => true
  | _ => false

/-- The log is the beginning of a trace, and all of it between iterations. -/
theorem LoopInv.completes (h : LoopInv n s) : ∃ events v goesOn,
    Trace (s.shared.log ++ events) v goesOn ∧ receivedPackets events = [] ∧
      (inIteration (s.threads .handler) = false → events = []) := by
  have hplace := h.handling
  generalize s.threads .handler = l at hplace
  cases hplace with
  | loop htrace hkept =>
      exact ⟨[], _, _, by rw [List.append_nil]; exact htrace, rfl, fun _ => rfl⟩
  | @body log pkt hlog htrace hkept hwf =>
      obtain ⟨⟨v, events, goesOn⟩, hit⟩ := iterate_isSome (f := ⟨"", .proxy⟩) hwf s.shared.vars {}
      refine ⟨events, v, goesOn, ?_, (iterate_cases hit).silent, (fun hin => nomatch hin)⟩
      rw [hlog, List.append_assoc]
      exact .snoc htrace (iterate_cases hit)
  | @emitting events goesOn htrace hkept hsilent =>
      refine ⟨events, _, _, htrace, hsilent, fun hin => ?_⟩
      cases events with
      | nil => rfl
      | cons e events => cases hin
  | discarding htrace =>
      exact ⟨[], _, _, by rw [List.append_nil]; exact htrace, rfl, fun _ => rfl⟩
  | returned htrace hclosed hempty =>
      exact ⟨[], _, _, by rw [List.append_nil]; exact htrace, rfl, fun _ => rfl⟩

/-! ### Nobody is left waiting -/

theorem LoopInv.canStep (h : LoopInv n s) {t : Tid} (ht : s.threads t = op :: rest)
    (hex : ∀ c, (exec f s.shared t c op).isSome = true) : ∀ c, (proxy f).CanStep s t c := by
  refine fun c => System.canStep_of_exec ?_ ht (hex c)
  show s.shared.panic.isSome = false
  rw [h.panic]
  rfl

/-- While there is a packet in the channel the handler can go on. -/
theorem LoopInv.handler_canStep (h : LoopInv n s) {buf : List Packet}
    (hbuf : s.shared.recvCh.buf = pkt :: buf) : ∀ c, (proxy f).CanStep s .handler c := by
  have hplace := h.handling
  generalize hl : s.threads .handler = l at hplace
  cases hplace with
  | loop htrace hkept => exact h.canStep hl fun c => by simp [exec, GoChan.recv_of_cons hbuf]
  | @body log pkt hlog htrace hkept hwf =>
      refine h.canStep hl fun c => ?_
      obtain ⟨⟨v, events, goesOn⟩, hit⟩ := iterate_isSome (f := f) hwf s.shared.vars c
      simp [exec, hit]
  | @emitting events goesOn htrace hkept hsilent =>
      cases events with
      | nil => exact h.canStep hl fun c => rfl
      | cons e events => exact h.canStep hl fun c => rfl
  | discarding htrace => exact h.canStep hl fun c => by simp [exec, GoChan.recv_of_cons hbuf]
  | returned htrace hclosed hempty =>
      rw [hempty] at hbuf
      cases hbuf

theorem LoopInv.reader_canStep (h : LoopInv n s) (hn : 0 < n) (hr : s.threads .reader ≠ []) :
    (∀ c, (proxy f).CanStep s .reader c) ∨ ∀ c, (proxy f).CanStep s .handler c := by
  have hplace := h.reading
  generalize hl : s.threads .reader = l at hplace hr
  cases hplace with
  | idle hopen hch hstop => exact absurd rfl hr
  | @sending pkt hopen hch hstop =>
      by_cases hroom : s.shared.recvCh.buf.length < s.shared.recvCh.cap
      · exact Or.inl (h.canStep hl fun c => by simp [exec, GoChan.send, hch, hroom])
      · cases hbuf : s.shared.recvCh.buf with
        | nil =>
            rw [hbuf, h.cap] at hroom
            exact absurd hn hroom
        | cons pkt' buf => exact Or.inr (h.handler_canStep hbuf)
  | @failing msg hopen hch hstop =>
      exact Or.inl (h.canStep hl fun c => by simp [exec, GoChan.send, hstop])
  | closing hopen hch hstop =>
      exact Or.inl (h.canStep hl fun c => by simp [exec, GoChan.close, hch])
  | stopping hopen hch hstop =>
      exact Or.inl (h.canStep hl fun c => by simp [exec, GoChan.close, hstop])
  | ended hopen hch => exact absurd rfl hr

/-- What the handler does next, and how much of it is left before it takes a
packet again. -/
def Op.left : Op → Nat
  | .body _ => 7
  | .emit _ | .next _ => 1
  | _ => 0

theorem Iteration.length_le (h : Iteration v pkt v' events goesOn) : events.length ≤ 5 := by
  cases h with
  | closed ht hb hf => rcases hf with rfl | ⟨connID, reason, rfl⟩ <;> simp
  | _ => simp [closeBoth]

/-- How far the handler is from taking the next packet. -/
def left (s : System.State LoopState Tid Op) : Nat := ((s.threads .handler).map Op.left).sum

theorem exec_left (h : LoopInv n s) (hne : s.shared.recvCh.buf ≠ [])
    (ht : s.threads .handler = op :: rest)
    (hex : exec f s.shared .handler c op = some (s₁, ops, start)) :
    s₁.recvCh.buf = s.shared.recvCh.buf.tail ∨ s₁.recvCh.buf = s.shared.recvCh.buf ∧
      ((ops ++ rest).map Op.left).sum < ((op :: rest).map Op.left).sum := by
  have hplace := h.handling
  rw [ht] at hplace
  obtain ⟨pkt', buf, hbuf⟩ := List.exists_cons_of_ne_nil hne
  generalize hl : op :: rest = l at hplace
  cases hplace with
  | loop htrace hkept =>
      cases hl
      simp only [exec, GoChan.recv_of_cons hbuf] at hex
      cases hex
      rw [hbuf]
      exact Or.inl rfl
  | @body log pkt hlog htrace hkept hwf =>
      cases hl
      obtain ⟨⟨v, events, goesOn⟩, hit⟩ := iterate_isSome (f := f) hwf s.shared.vars c
      simp only [exec, hit] at hex
      cases hex
      refine Or.inr ⟨rfl, ?_⟩
      have hlen := (iterate_cases hit).length_le
      have hsum : ((events.map Op.emit).map Op.left).sum = events.length := by
        clear hit hlen
        induction events with
        | nil => rfl
        | cons e events ih =>
            rw [List.map_cons, List.map_cons, List.sum_cons, ih, List.length_cons, Op.left]
            omega
      simp only [List.append_nil, List.map_append, List.sum_append, hsum, List.map_cons,
        List.map_nil, List.sum_cons, List.sum_nil, Op.left]
      omega
  | @emitting events goesOn htrace hkept hsilent =>
      cases events with
      | nil =>
          cases hl
          cases hex
          refine Or.inr ⟨rfl, ?_⟩
          cases goesOn <;> decide
      | cons e events =>
          cases hl
          cases hex
          refine Or.inr ⟨rfl, ?_⟩
          simp [Op.left]
  | discarding htrace =>
      cases hl
      simp only [exec, GoChan.recv_of_cons hbuf] at hex
      cases hex
      rw [hbuf]
      exact Or.inl rfl
  | returned htrace hclosed hempty => cases hl

/-- A step of the handler takes a packet, or there is less left to do before it
takes one. -/
theorem LoopInv.handler_left (h : LoopInv n s) (hne : s.shared.recvCh.buf ≠ [])
    {s' : System.State LoopState Tid Op} (hst : (proxy f).step s (.run .handler c) = some s') :
    s'.shared.recvCh.buf = s.shared.recvCh.buf.tail ∨
      s'.shared.recvCh.buf = s.shared.recvCh.buf ∧ left s' < left s := by
  rcases System.step_cases hst with ⟨t, c', o, rest, s₁, ops, ha, ht, hex, rfl⟩ |
    ⟨t, c', o, rest, s₁, ops, t', ops', ha, ht, hex, rfl⟩ | ⟨x, s₁, ha, -, -⟩ |
    ⟨x, s₁, t, ops, ha, -, -, -⟩
  · cases ha
    rcases exec_left h hne ht hex with htail | ⟨hsame, hless⟩
    · exact Or.inl htail
    · refine Or.inr ⟨hsame, ?_⟩
      unfold left
      dsimp only
      rw [Function.update_self, ht]
      exact hless
  · cases ha
    cases (h.exec_handler ht hex).1
  · cases ha
  · cases ha

/-- The frontend dials, sends data of connection 5, and then data of another. -/
def mismatchRun : List (System.Action Tid Recv Outcome) :=
  let handle (k : Nat) : List (System.Action Tid Recv Outcome) :=
    List.replicate k (.run .handler { getBackend := .ok 3 })
  List.flatten
    [[.arrive (.packet (.ofDialRequest ⟨"tcp", "node:443", 7⟩)), .run .reader {}], handle 7,
      [.arrive (.packet (.ofData ⟨5, "", [1]⟩)), .run .reader {}], handle 4,
      [.arrive (.packet (.ofData ⟨6, "", [2]⟩)), .run .reader {}], handle 7]

end Konnectivity.FrontendLoop
