import Konnectivity.Proofs.TunnelInv

/-!
# Readers of a tunnel that has finished

When `serve` returns it closes the `readCh` of every registered connection,
unless a `CLOSE_RSP` has done so already. A connection whose result was handed
over but which `dialContext` has not registered yet escapes both: it is
registered after `closeAll` and returned to a caller whose `Read` waits
forever. Whenever `closeAll` finds all connections registered, every channel
is closed exactly once.
-/

namespace Konnectivity.Client

open Lib

/-- `closeAll` runs after the registration of every connection handed over. -/
def Op.closesAll (s : TunnelState) : Op → Bool
  | .closeAll => s.log.all fun e =>
      match e with
      | .handed r ⟨none, cid⟩ => s.log.contains (.registered cid r)
      | _ => true
  | _ => true

def ClosesAll (s : TunnelState) (_ : Tid) (_ : Choice) (op : Op) : Prop := op.closesAll s = true

instance ClosesAll.decidable (s : TunnelState) (t : Tid) (c : Choice) (op : Op) :
    Decidable (ClosesAll s t c op) :=
  inferInstanceAs (Decidable (op.closesAll s = true))

theorem ClosesAll.registered {s : TunnelState} {t : Tid} {c : Choice}
    (h : ClosesAll s t c .closeAll) {r : DialID} {cid : ConnectID}
    (hh : .handed r ⟨none, cid⟩ ∈ s.log) : .registered cid r ∈ s.log := by
  have := List.all_eq_true.mp h _ hh
  simpa using this

/-- `serve` has closed the connections it found. -/
def Stopped (s : System.State TunnelState Tid Op) : Prop :=
  core (s.threads .serve) = [.closeDone] ∨ s.shared.done = true

/-- The `readCh` of the connection is closed. -/
def TunnelState.readClosed (s : TunnelState) (r : DialID) : Prop := (s.conn r).readCh.closed = true

/-! ## Counting -/

/-- A channel is closed once, and only if its connection was registered. -/
structure CloseCount (s : TunnelState) : Prop where
  closed : ∀ r, s.readClosed r → s.log.count (.readClosed r) = 1
  unclosed : ∀ r, ¬ s.readClosed r → s.log.count (.readClosed r) = 0
  registered : ∀ r, s.readClosed r → ∃ c, .registered c r ∈ s.log

structure ReadInv (s : System.State TunnelState Tid Op) : Prop where
  count : CloseCount s.shared
  lookup : ∀ c r, .registered c r ∈ s.shared.log →
    s.shared.conns.lookup c = some r ∨ s.shared.readClosed r
  conns : ∀ c r, s.shared.conns.lookup c = some r → s.shared.readClosed r →
    (∃ c', .connsRemove c' ∈ core (s.threads .serve)) ∨ Stopped s
  removing : ∀ c, .connsRemove c ∈ core (s.threads .serve) →
    (∀ r, .closeReadCh r ∉ core (s.threads .serve)) →
    ∀ c' r, .registered c' r ∈ s.shared.log → s.shared.readClosed r
  stopped : Stopped s → ∀ c r, .registered c r ∈ s.shared.log → s.shared.readClosed r
  promised : Stopped s → ∀ c r, .handed r ⟨none, c⟩ ∈ s.shared.log →
    .registered c r ∈ s.shared.log

/-! ## Steps -/

section Steps

variable {s : System.State TunnelState Tid Op} {s₁ : TunnelState} {t : Tid} {c : Choice} {op : Op}
  {ops rest : List Op} {start : Option (Tid × List Op)} {threads : Tid → List Op}

/-- Closing an open channel. -/
theorem CloseCount.closeReadCh {s : TunnelState} (h : CloseCount s) {r : DialID} {cid : ConnectID}
    (hopen : ¬ s.readClosed r) (hreg : .registered cid r ∈ s.log) :
    CloseCount (s.closeReadCh r) ∧ (s.closeReadCh r).readClosed r ∧
      ∀ r', s.readClosed r' → (s.closeReadCh r).readClosed r' := by
  have hstate : s.closeReadCh r = (s.record (.readClosed r)).setConn r
      { s.conn r with readCh := { (s.conn r).readCh with closed := true } } := by
    have hopen : (s.conn r).readCh.closed = false := Bool.eq_false_iff.mpr hopen
    simp [TunnelState.closeReadCh, GoChan.close, hopen]
  have hself : (s.closeReadCh r).readClosed r := by
    rw [hstate, TunnelState.readClosed, TunnelState.setConn_conn, Function.update_self]
  have hother : ∀ {r'}, r' ≠ r → ((s.closeReadCh r).readClosed r' ↔ s.readClosed r') := by
    intro r' hr
    rw [TunnelState.readClosed, closeReadCh_other s hr]
    rfl
  have hlog := (closeReadCh_frame s r).2.2.2.2
  refine ⟨⟨fun r' hr' => ?_, fun r' hr' => ?_, fun r' hr' => ?_⟩, hself, fun r' hr' => ?_⟩
  · rw [hlog]
    by_cases hr : r' = r
    · subst hr
      rw [List.count_cons_self, h.unclosed r' hopen]
    · rw [List.count_cons_of_ne (by simpa using Ne.symm hr)]
      exact h.closed r' ((hother hr).mp hr')
  · rw [hlog]
    have hr : r' ≠ r := by
      rintro rfl
      exact hr' hself
    rw [List.count_cons_of_ne (by simpa using Ne.symm hr)]
    exact h.unclosed r' fun hc => hr' ((hother hr).mpr hc)
  · rw [hlog]
    by_cases hr : r' = r
    · subst hr
      exact ⟨cid, List.mem_cons_of_mem _ hreg⟩
    · obtain ⟨c', hc'⟩ := h.registered r' ((hother hr).mp hr')
      exact ⟨c', List.mem_cons_of_mem _ hc'⟩
  · by_cases hr : r' = r
    · subst hr
      exact hself
    · exact (hother hr).mpr hr'

/-- A step that closes nothing. -/
theorem CloseCount.frame {s : TunnelState} (h : CloseCount s) (es : List Event)
    (hlog : s₁.log = es ++ s.log) (hes : ∀ r, .readClosed r ∉ es)
    (hsame : ∀ r, s₁.readClosed r ↔ s.readClosed r) : CloseCount s₁ := by
  have hcount : ∀ r, s₁.log.count (.readClosed r) = s.log.count (.readClosed r) := by
    intro r
    rw [hlog, List.count_append, List.count_eq_zero.mpr (hes r), Nat.zero_add]
  refine ⟨fun r hr => ?_, fun r hr => ?_, fun r hr => ?_⟩
  · rw [hcount]
    exact h.closed r ((hsame r).mp hr)
  · rw [hcount]
    exact h.unclosed r fun hc => hr ((hsame r).mpr hc)
  · obtain ⟨cid, hreg⟩ := h.registered r ((hsame r).mp hr)
    rw [hlog]
    exact ⟨cid, List.mem_append_right _ hreg⟩

/-- A step that closes nothing, registers nothing and hands nothing over. -/
theorem ReadInv.quiet (h : ReadInv s) (es : List Event) (hlog : s₁.log = es ++ s.shared.log)
    (hes : ∀ e ∈ es, (∀ r, e ≠ .readClosed r) ∧ (∀ c r, e ≠ .registered c r) ∧
      (Stopped s → ∀ r res, e ≠ .handed r res))
    (hconns : s₁.conns = s.shared.conns)
    (hsame : ∀ r, s₁.readClosed r ↔ s.shared.readClosed r)
    (hremove : ∀ c, .connsRemove c ∈ core (threads .serve) →
      (∃ r, .closeReadCh r ∈ core (threads .serve)) ∨
        (.connsRemove c ∈ core (s.threads .serve) ∧ ∀ r, .closeReadCh r ∉ core (s.threads .serve)))
    (hkeep : ∀ c, .connsRemove c ∈ core (s.threads .serve) →
      .connsRemove c ∈ core (threads .serve))
    (hstopped : Stopped ⟨s₁, threads⟩ ↔ Stopped s) : ReadInv ⟨s₁, threads⟩ := by
  have hsub : s.shared.log ⊆ s₁.log := by
    rw [hlog]
    exact List.subset_append_right _ _
  have hreg : ∀ {c r}, .registered c r ∈ s₁.log → .registered c r ∈ s.shared.log := by
    intro c r hr
    rw [hlog] at hr
    exact (List.mem_append.mp hr).resolve_left fun he => (hes _ he).2.1 c r rfl
  refine ⟨h.count.frame es hlog (fun r he => (hes _ he).1 r rfl) hsame, fun c r hr => ?_,
    fun c r hl hr => ?_, fun c hc hno c' r hr => ?_, fun hs c r hr => ?_, fun hs c r hr => ?_⟩
  · rw [hconns, hsame]
    exact h.lookup c r (hreg hr)
  · rcases h.conns c r (hconns ▸ hl) ((hsame r).mp hr) with ⟨c', hc'⟩ | hs
    · exact Or.inl ⟨c', hkeep c' hc'⟩
    · exact Or.inr (hstopped.mpr hs)
  · rcases hremove c hc with ⟨r', hr'⟩ | ⟨hc, hno⟩
    · exact absurd hr' (hno r')
    · exact (hsame r).mpr (h.removing c hc hno c' r (hreg hr))
  · exact (hsame r).mpr (h.stopped (hstopped.mp hs) c r (hreg hr))
  · have hs := hstopped.mp hs
    rw [hlog] at hr
    exact hsub (h.promised hs c r ((List.mem_append.mp hr).resolve_left
      fun he => (hes _ he).2.2 hs r _ rfl))

/-- The table holds at most the one connection. -/
theorem values_unique {m : GoMap ConnectID DialID}
    (h : ∀ c r c' r', m.lookup c = some r → m.lookup c' = some r' → c = c') :
    m.values = [] ∨ ∃ c r, m.lookup c = some r ∧ m.values = [r] := by
  have hkeys : ∀ e ∈ m.entries, ∀ e' ∈ m.entries, e.1 = e'.1 := fun e he e' he' =>
    h e.1 e.2 e'.1 e'.2 (GoMap.lookup_eq_some_iff.mpr he) (GoMap.lookup_eq_some_iff.mpr he')
  cases hm : m.entries with
  | nil => exact Or.inl (by rw [GoMap.values, hm, List.map_nil])
  | cons e es =>
      cases es with
      | nil =>
          refine Or.inr ⟨e.1, e.2, ?_, by rw [GoMap.values, hm]; rfl⟩
          rw [GoMap.lookup_eq_some_iff, hm]
          exact List.mem_singleton.mpr rfl
      | cons e' es =>
          have hnodup := m.nodupKeys
          rw [hm] at hkeys hnodup
          have heq := hkeys e List.mem_cons_self e' (by simp)
          simp [List.NodupKeys, List.keys, heq] at hnodup

/-- A step of the loop of `serve`, which has closed nothing yet. -/
theorem ReadInv.loop (h : ReadInv s) (hrun : s.shared.done = false)
    (hcore : core (s.threads .serve) = [op]) (h1 : op ≠ .closeDone) (h2 : ∀ c, op ≠ .connsRemove c)
    (es : List Event) (hlog : s₁.log = es ++ s.shared.log)
    (hes : ∀ e ∈ es, (∀ r, e ≠ .readClosed r) ∧ (∀ c r, e ≠ .registered c r))
    (hconns : s₁.conns = s.shared.conns) (hdone : s₁.done = s.shared.done)
    (hsame : ∀ r, s₁.readClosed r ↔ s.shared.readClosed r)
    (hremove : ∀ c, .connsRemove c ∈ core (threads .serve) →
      ∃ r, .closeReadCh r ∈ core (threads .serve))
    (hnew : core (threads .serve) ≠ [.closeDone]) : ReadInv ⟨s₁, threads⟩ := by
  have hnot : ¬ Stopped s := by
    rintro (hs | hs)
    · rw [hcore] at hs
      injection hs with hs
      exact h1 hs
    · rw [hrun] at hs
      cases hs
  have hnot' : ¬ Stopped ⟨s₁, threads⟩ := by
    rintro (hs | hs)
    · exact hnew hs
    · rw [hdone, hrun] at hs
      cases hs
  refine h.quiet es hlog (fun e he => ⟨(hes e he).1, (hes e he).2, fun hs => absurd hs hnot⟩) hconns
    hsame (fun c hc => Or.inl (hremove c hc)) (fun c hc => ?_) (iff_of_false hnot' hnot)
  rw [hcore, List.mem_singleton] at hc
  exact absurd hc.symm (h2 c)

theorem setConn_readClosed {s : TunnelState} {r : DialID} {x : Conn}
    (hx : x.readCh.closed = (s.conn r).readCh.closed) (r' : DialID) :
    (s.setConn r x).readClosed r' ↔ s.readClosed r' := by
  unfold TunnelState.readClosed
  by_cases hr : r' = r
  · subst hr
    rw [TunnelState.setConn_conn, Function.update_self, hx]
  · rw [TunnelState.setConn_conn, Function.update_of_ne hr]

/-- `serve` in its loop. -/
theorem ReadInv.exec_loop (h : ReadInv s) (hT : TunnelInv s) (hrun : s.shared.done = false)
    (hcore : core (s.threads .serve) = [op]) (h1 : op ≠ .closeDone)
    (hex : exec s.shared .serve c op = some (s₁, ops, start))
    (hcore' : core (threads .serve) = core ops) : ReadInv ⟨s₁, threads⟩ := by
  have hserving := hT.serving
  rw [hcore] at hserving
  have hsame : ∀ r, s.shared.readClosed r ↔ s.shared.readClosed r := fun _ => Iff.rfl
  cases hserving with
  | @dispatch pkt hpkt =>
      simp only [Konnectivity.Client.exec] at hex
      split at hex
      · cases hex
        refine h.loop hrun hcore (by simp) (by simp) [] rfl (by simp) rfl rfl hsame ?_ ?_ <;>
          rw [hcore', core_serveExit] <;> simp
      · split at hex
        · cases hex
          refine h.loop hrun hcore (by simp) (by simp) [] rfl (by simp) rfl rfl hsame ?_ ?_ <;>
            rw [hcore'] <;> simp
        · next ops' hops =>
            cases hex
            refine h.loop hrun hcore (by simp) (by simp) [] rfl (by simp) rfl rfl hsame ?_ ?_ <;>
              rw [hcore'] <;>
              rcases serve_cases hops with ⟨rfl, -⟩ | ⟨r', res, rfl, -⟩ | ⟨cid, k, rfl, -⟩ <;>
              simp [core, Op.isMetric]
  | @pendingGet r res hrep =>
      simp only [Konnectivity.Client.exec] at hex
      split at hex <;> cases hex
      · refine h.loop hrun hcore (by simp) (by simp) [] rfl (by simp) rfl rfl hsame ?_ ?_ <;>
          rw [hcore', core_serveExit] <;> simp
      · have hoffer : core ((if res.err.isNone then [Op.updateMetric .ok] else []) ++
            [.offerResult r res]) = [.offerResult r res] := by
          split <;> rfl
        refine h.loop hrun hcore (by simp) (by simp) [] rfl (by simp) rfl rfl hsame ?_ ?_ <;>
          rw [hcore', hoffer] <;> simp
  | @offerResult r res hrep =>
      simp only [Konnectivity.Client.exec] at hex
      cases hex
      refine h.loop hrun hcore (by simp) (by simp) [] rfl (by simp) rfl rfl hsame ?_ ?_ <;>
        rw [hcore'] <;> simp [core, Op.isMetric]
  | @awaitTaken r res hrep =>
      simp only [Konnectivity.Client.exec] at hex
      obtain ⟨⟨s', ops'⟩, haw, heq⟩ := Option.map_eq_some_iff.mp hex
      cases heq
      have hops : (ops' = [] ∨ ops' = serveExit) ∧ ∃ x, s' = s.shared.setChans r x := by
        unfold TunnelState.awaitTaken at haw
        repeat' split at haw
        all_goals cases haw
        all_goals simp
      obtain ⟨hops, x, rfl⟩ := hops
      refine h.loop hrun hcore (by simp) (by simp) [] rfl (by simp) rfl rfl hsame ?_ ?_ <;>
        rw [hcore'] <;> rcases hops with rfl | rfl <;> simp [core_serveExit]
  | @connsGet cid k hb =>
      simp only [Konnectivity.Client.exec] at hex
      cases hex
      refine h.loop hrun hcore (by simp) (by simp) [] rfl (by simp) rfl rfl hsame ?_ ?_ <;>
        rw [hcore'] <;> cases k <;> cases s.shared.conns.lookup cid <;>
        simp [AfterGet.next, core, Op.isMetric, serveExit]
  | @sendReadCh r pkt data cid hr hb =>
      simp only [Konnectivity.Client.exec] at hex
      obtain ⟨⟨s', ops'⟩, hsend, heq⟩ := Option.map_eq_some_iff.mp hex
      cases heq
      unfold TunnelState.sendReadCh at hsend
      repeat' split at hsend
      all_goals cases hsend
      · refine h.loop hrun hcore (by simp) (by simp) [] rfl (by simp) rfl rfl hsame ?_ ?_ <;>
          rw [hcore'] <;> simp
      · next ch hch =>
          refine h.loop hrun hcore (by simp) (by simp) [_] rfl (by simp) rfl rfl
            (setConn_readClosed (GoChan.send_closed hch)) ?_ ?_ <;> rw [hcore'] <;> simp
      · refine h.loop hrun hcore (by simp) (by simp) [] rfl (by simp) rfl rfl hsame ?_ ?_ <;>
          rw [hcore', core_serveExit] <;> simp
      · refine h.loop hrun hcore (by simp) (by simp) [] rfl (by simp) rfl rfl hsame ?_ ?_ <;>
          rw [hcore'] <;> simp
  | @send cid =>
      simp only [Konnectivity.Client.exec, AfterSend.next] at hex
      cases hex
      refine h.loop hrun hcore (by simp) (by simp) [_] rfl (by simp) rfl rfl hsame ?_ ?_ <;>
        rw [hcore'] <;> simp
  | closeDone => exact absurd rfl h1

/-- `closeAll` closes what it finds. -/
theorem CloseCount.closeAll {s : TunnelState} (h : CloseCount s)
    (hH : DialHistory s) (hopen : ∀ c r, s.conns.lookup c = some r → ¬ s.readClosed r) :
    CloseCount (s.conns.values.foldl TunnelState.closeReadCh s) ∧
      (∀ c r, s.conns.lookup c = some r →
        (s.conns.values.foldl TunnelState.closeReadCh s).readClosed r) ∧
      ∀ r, s.readClosed r → (s.conns.values.foldl TunnelState.closeReadCh s).readClosed r := by
  have hone : s.conns.values = [] ∨ ∃ c r, s.conns.lookup c = some r ∧ s.conns.values = [r] :=
    values_unique fun c r c' r' hc hc' =>
      (DialHistory.registered_unique hH.justified (hH.conns c r hc) (hH.conns c' r' hc')).1
  have hval : ∀ c r, s.conns.lookup c = some r → r ∈ s.conns.values :=
    fun c r hc => GoMap.mem_values_iff.mpr ⟨c, hc⟩
  rcases hone with hnil | ⟨c, r, hc, hone⟩
  · rw [hnil] at hval ⊢
    exact ⟨h, fun c r hc => absurd (hval c r hc) List.not_mem_nil, fun r hr => hr⟩
  · obtain ⟨h1, h2, h3⟩ := h.closeReadCh (hopen c r hc) (hH.conns c r hc)
    rw [hone] at hval ⊢
    refine ⟨h1, fun c' r' hc' => ?_, h3⟩
    rw [List.mem_singleton.mp (hval c' r' hc')]
    exact h2

/-- `serve` is on its way out, and more than its last operation is left. -/
theorem not_stopped_of_tail {tail : List Op} (hrun : s.shared.done = false)
    (hcore : core (s.threads .serve) = op :: tail) (ht : tail ≠ []) : ¬ Stopped s := by
  rintro (hs | hs)
  · rw [hcore] at hs
    injection hs with _ hs
    exact ht hs
  · rw [hrun] at hs
    cases hs

/-- Between the two operations that close something the list only gets shorter. -/
theorem ReadInv.shorter (h : ReadInv s) {r : DialID} {cid : ConnectID} {tail : List Op}
    (es : List Event) (hrun : s.shared.done = false)
    (hcore : core (s.threads .serve) = op :: tail)
    (htail : tail = [.closeCloseCh r, .connsRemove cid, .closeAll, .closeDone] ∨
      tail = [.connsRemove cid, .closeAll, .closeDone])
    (ho : ∀ r, op ≠ .closeReadCh r) (ho' : ∀ c, op ≠ .connsRemove c)
    (hlog : s₁.log = es ++ s.shared.log)
    (hes : ∀ e ∈ es, (∀ r, e ≠ .readClosed r) ∧ (∀ c r, e ≠ .registered c r))
    (hconns : s₁.conns = s.shared.conns) (hdone : s₁.done = s.shared.done)
    (hsame : ∀ r, s₁.readClosed r ↔ s.shared.readClosed r)
    (hnew : core (threads .serve) = tail) : ReadInv ⟨s₁, threads⟩ := by
  have hnot : ¬ Stopped s :=
    not_stopped_of_tail hrun hcore (by rcases htail with rfl | rfl <;> simp)
  have hnot' : ¬ Stopped ⟨s₁, threads⟩ := by
    rintro (hs | hs)
    · rw [hnew] at hs
      rcases htail with rfl | rfl <;> simp at hs
    · rw [hdone, hrun] at hs
      cases hs
  refine h.quiet es hlog (fun e he => ⟨(hes e he).1, (hes e he).2, fun hs => absurd hs hnot⟩)
    hconns hsame (fun c hc => Or.inr ⟨?_, fun r' hr' => ?_⟩) (fun c hc => ?_)
    (iff_of_false hnot' hnot)
  · rw [hcore]
    exact List.mem_cons_of_mem _ (hnew ▸ hc)
  · rw [hcore] at hr'
    rcases List.mem_cons.mp hr' with hr' | hr'
    · exact ho r' hr'.symm
    · rcases htail with rfl | rfl <;> simp at hr'
  · rw [hcore] at hc
    rw [hnew]
    exact (List.mem_cons.mp hc).resolve_left fun hc => ho' c hc.symm

theorem ReadInv.exec_closeReadCh (h : ReadInv s) (hT : TunnelInv s) (hC : ChanInv s) {r : DialID}
    {pkt : Packet} {error : String} {cid : ConnectID} (hr : .registered cid r ∈ s.shared.log)
    (hrun : s.shared.done = false)
    (hcore : core (s.threads .serve) = [.closeReadCh r, .sendCloseCh r pkt error, .closeCloseCh r,
      .connsRemove cid, .closeAll, .closeDone])
    (hex : exec s.shared .serve c (.closeReadCh r) = some (s₁, ops, start))
    (hcore' : core (threads .serve) = core ops ++ [.sendCloseCh r pkt error, .closeCloseCh r,
      .connsRemove cid, .closeAll, .closeDone]) : ReadInv ⟨s₁, threads⟩ := by
  have hunique : ∀ {c c' : ConnectID} {r r' : DialID}, .registered c r ∈ s.shared.log →
      .registered c' r' ∈ s.shared.log → c = c' ∧ r = r' :=
    fun hr hr' => DialHistory.registered_unique hT.history.justified hr hr'
  simp only [Konnectivity.Client.exec] at hex
  cases hex
  have hopen : ¬ s.shared.readClosed r := by
    intro hc
    rcases hC.read r hc with hd | ⟨-, hno⟩
    · rw [hrun] at hd
      cases hd
    · exact hno r (by rw [hcore]; exact List.mem_cons_self)
  obtain ⟨hcount, hself, hmono⟩ := h.count.closeReadCh hopen hr
  obtain ⟨hconns, -, -, hdone, hlog⟩ := closeReadCh_frame s.shared r
  have hreg : ∀ {c' r'}, .registered c' r' ∈ (s.shared.closeReadCh r).log →
      .registered c' r' ∈ s.shared.log := by
    intro c' r' hr'
    rw [hlog] at hr'
    simpa using hr'
  have hnot : ¬ Stopped ⟨s.shared.closeReadCh r, threads⟩ := by
    rintro (hs | hs)
    · rw [hcore'] at hs
      simp at hs
    · rw [hdone, hrun] at hs
      cases hs
  refine ⟨hcount, fun c' r' hr' => ?_, fun c' r' _ _ => Or.inl ⟨cid, ?_⟩,
    fun c' _ _ c'' r' hr' => ?_, fun hs => absurd hs hnot, fun hs => absurd hs hnot⟩
  · dsimp only
    rw [hconns]
    exact (h.lookup c' r' (hreg hr')).imp_right (hmono r')
  · rw [hcore']
    simp
  · rw [(hunique (hreg hr') hr).2]
    exact hself

theorem ReadInv.exec_connsRemove (h : ReadInv s) (hT : TunnelInv s) {r : DialID} {cid : ConnectID}
    (hr : .registered cid r ∈ s.shared.log) (hrun : s.shared.done = false)
    (hcore : core (s.threads .serve) = [.connsRemove cid, .closeAll, .closeDone])
    (hex : exec s.shared .serve c (.connsRemove cid) = some (s₁, ops, start))
    (hcore' : core (threads .serve) = core ops ++ [.closeAll, .closeDone]) :
    ReadInv ⟨s₁, threads⟩ := by
  have hunique : ∀ {c c' : ConnectID} {r r' : DialID}, .registered c r ∈ s.shared.log →
      .registered c' r' ∈ s.shared.log → c = c' ∧ r = r' :=
    fun hr hr' => DialHistory.registered_unique hT.history.justified hr hr'
  simp only [Konnectivity.Client.exec] at hex
  cases hex
  have hclosed : ∀ c' r', .registered c' r' ∈ s.shared.log → s.shared.readClosed r' :=
    h.removing cid (by rw [hcore]; exact List.mem_cons_self) (by rw [hcore]; simp)
  have hnot : ¬ Stopped ⟨{ s.shared with conns := s.shared.conns.erase cid }, threads⟩ := by
    rintro (hs | hs)
    · rw [hcore'] at hs
      simp at hs
    · rw [show s.shared.done = true from hs] at hrun
      cases hrun
  refine ⟨h.count.frame [] rfl (by simp) (fun _ => Iff.rfl),
    fun c' r' hr' => Or.inr (hclosed c' r' hr'),
    fun c' r' hl _ => ?_, fun c' hc' => ?_, fun hs => absurd hs hnot, fun hs => absurd hs hnot⟩
  · -- The table is empty now.
    dsimp only at hl
    rw [GoMap.lookup_erase_if] at hl
    split at hl
    · cases hl
    · next hne => exact absurd (hunique (hT.history.conns c' r' hl) hr).1 hne
  · rw [hcore'] at hc'
    simp at hc'

theorem ReadInv.exec_closeAll (h : ReadInv s) (hT : TunnelInv s) (hrun : s.shared.done = false)
    (hcore : core (s.threads .serve) = [.closeAll, .closeDone])
    (hok : ClosesAll s.shared .serve c .closeAll)
    (hex : exec s.shared .serve c .closeAll = some (s₁, ops, start))
    (hcore' : core (threads .serve) = core ops ++ [.closeDone]) : ReadInv ⟨s₁, threads⟩ := by
  simp only [Konnectivity.Client.exec] at hex
  cases hex
  have hopen : ∀ c r, s.shared.conns.lookup c = some r → ¬ s.shared.readClosed r := by
    intro c r hl hc
    rcases h.conns c r hl hc with ⟨c', hc'⟩ | hs
    · rw [hcore] at hc'
      simp at hc'
    · exact not_stopped_of_tail hrun hcore (by simp) hs
  obtain ⟨hcount, hfound, hmono⟩ := h.count.closeAll hT.history hopen
  obtain ⟨hconns, -, -, -, hlog⟩ := closeAll_frame s.shared.conns.values s.shared
  have hreg : ∀ {c r}, .registered c r ∈
      (s.shared.conns.values.foldl TunnelState.closeReadCh s.shared).log →
      .registered c r ∈ s.shared.log := by
    intro c r hr
    rw [hlog] at hr
    simpa using hr
  have hclosed : ∀ c r, .registered c r ∈ s.shared.log →
      (s.shared.conns.values.foldl TunnelState.closeReadCh s.shared).readClosed r :=
    fun c r hr => (h.lookup c r hr).elim (hfound c r) (hmono r)
  refine ⟨hcount, fun c r hr => Or.inr (hclosed c r (hreg hr)),
    fun c r _ _ => Or.inr (Or.inl hcore'), fun c hc => ?_, fun _ c r hr => hclosed c r (hreg hr),
    fun _ c r hr => ?_⟩
  · rw [hcore'] at hc
    simp at hc
  · dsimp only at hr ⊢
    rw [hlog] at hr ⊢
    exact List.mem_append_right _ (hok.registered (by simpa using hr))

/-- `serve` on its way out. -/
theorem ReadInv.exec_exit (h : ReadInv s) (hT : TunnelInv s) (hC : ChanInv s) {tail : List Op}
    (hrun : s.shared.done = false) (hcore : core (s.threads .serve) = op :: tail)
    (hout : tail ≠ [] ∨ op = .closeDone) (hok : ClosesAll s.shared .serve c op)
    (hex : exec s.shared .serve c op = some (s₁, ops, start))
    (hcore' : core (threads .serve) = core ops ++ tail) : ReadInv ⟨s₁, threads⟩ := by
  have hserving := hT.serving
  rw [hcore] at hserving
  cases hserving with
  | @closeReadCh r pkt error cid hr hb => exact h.exec_closeReadCh hT hC hr hrun hcore hex hcore'
  | @sendCloseCh r pkt error cid hr hb =>
      simp only [Konnectivity.Client.exec] at hex
      split at hex
      · cases hex
      · cases hex
        exact h.shorter [] hrun hcore (Or.inl rfl) (by simp) (by simp) rfl (by simp) rfl rfl
          (fun _ => Iff.rfl) hcore'
      · cases hex
        exact h.shorter [_] hrun hcore (Or.inl rfl) (by simp) (by simp) rfl (by simp) rfl rfl
          (setConn_readClosed rfl) hcore'
  | @closeCloseCh r cid hr =>
      simp only [Konnectivity.Client.exec] at hex
      split at hex <;> cases hex
      · exact h.shorter (r := r) [] hrun hcore (Or.inr rfl) (by simp) (by simp) rfl
          (by simp) rfl rfl (fun _ => Iff.rfl) hcore'
      · exact h.shorter (r := r) [] hrun hcore (Or.inr rfl) (by simp) (by simp) rfl
          (by simp) rfl rfl (setConn_readClosed rfl) hcore'
  | @connsRemove r cid hr => exact h.exec_connsRemove hT hr hrun hcore hex hcore'
  | closeAll => exact h.exec_closeAll hT hrun hcore hok hex hcore'
  | closeDone =>
      simp only [Konnectivity.Client.exec] at hex
      cases hex
      refine h.quiet [] rfl (by simp) rfl (fun _ => Iff.rfl) (fun c hc => ?_) (fun c hc => ?_)
        (iff_of_true (Or.inr rfl) (Or.inl hcore))
      · rw [hcore'] at hc
        simp at hc
      · rw [hcore] at hc
        simp at hc
  | _ => rcases hout with ho | ho <;> simp at ho

theorem ReadInv.exec_serve (h : ReadInv s) (hT : TunnelInv s) (hC : ChanInv s)
    (ht : s.threads .serve = op :: rest) (hm : op.isMetric = false)
    (hok : ClosesAll s.shared .serve c op)
    (hex : exec s.shared .serve c op = some (s₁, ops, start))
    (hthreads : threads .serve = ops ++ rest) : ReadInv ⟨s₁, threads⟩ := by
  have hcore : core (s.threads .serve) = op :: core rest := by
    rw [ht, core_cons hm]
  have hrun : s.shared.done = false := by
    cases hd : s.shared.done with
    | false => rfl
    | true =>
        rw [hT.done hd] at hcore
        cases hcore
  have hcore' : core (threads .serve) = core ops ++ core rest := by
    rw [hthreads, core_append]
  by_cases hout : core rest = [] ∧ op ≠ .closeDone
  · rw [hout.1] at hcore hcore'
    exact h.exec_loop hT hrun hcore hout.2 hex (by rw [hcore', List.append_nil])
  · refine h.exec_exit hT hC hrun hcore ?_ hok hex hcore'
    by_cases hrest : core rest = []
    · exact Or.inr (not_not.mp fun hne => hout ⟨hrest, hne⟩)
    · exact Or.inl hrest

/-- A step that leaves `serve` where it is. -/
theorem ReadInv.aside (h : ReadInv s) (es : List Event) (hlog : s₁.log = es ++ s.shared.log)
    (hes : ∀ e ∈ es, (∀ r, e ≠ .readClosed r) ∧ (∀ c r, e ≠ .registered c r) ∧
      (Stopped s → ∀ r res, e ≠ .handed r res))
    (hconns : s₁.conns = s.shared.conns) (hdone : s₁.done = s.shared.done)
    (hsame : ∀ r, s₁.readClosed r ↔ s.shared.readClosed r)
    (hcore : core (threads .serve) = core (s.threads .serve)) : ReadInv ⟨s₁, threads⟩ := by
  refine h.quiet es hlog hes hconns hsame (fun c hc => ?_) (fun c hc => hcore ▸ hc) ?_
  · rw [hcore] at hc ⊢
    by_cases hno : ∃ r, .closeReadCh r ∈ core (s.threads .serve)
    · exact Or.inl hno
    · exact Or.inr ⟨hc, fun r hr => hno ⟨r, hr⟩⟩
  · unfold Stopped
    dsimp only
    rw [hcore, hdone]

theorem Serving.removing {log : List Event} {l : List Op} (h : Serving log l) {cid : ConnectID}
    (hc : .connsRemove cid ∈ l) : ∃ r, .registered cid r ∈ log := by
  cases h <;> simp only [List.mem_cons, List.not_mem_nil, reduceCtorEq, Op.connsRemove.injEq,
    or_false, false_or] at hc
  all_goals
    subst hc
    exact ⟨_, by assumption⟩

/-- The connection is registered while `serve` goes on. -/
theorem ReadInv.register (h : ReadInv s) (hT : TunnelInv s) {cid : ConnectID} {r : DialID}
    (hhanded : .handed r ⟨none, cid⟩ ∈ s.shared.log)
    (hfresh : ∀ c r, .registered c r ∉ s.shared.log)
    (hlog : s₁.log = .registered cid r :: s.shared.log)
    (hconns : s₁.conns = s.shared.conns.insert cid r)
    (hconn : s₁.conn = Function.update s.shared.conn r { connID := cid })
    (hdone : s₁.done = s.shared.done)
    (hcore : core (threads .serve) = core (s.threads .serve)) : ReadInv ⟨s₁, threads⟩ := by
  have hnot : ¬ Stopped ⟨s₁, threads⟩ := by
    intro hs
    unfold Stopped at hs
    dsimp only at hs
    rw [hcore, hdone] at hs
    exact hfresh cid r (h.promised hs cid r hhanded)
  have hopen : ∀ r', ¬ s.shared.readClosed r' := by
    intro r' hr'
    obtain ⟨c', hc'⟩ := h.count.registered r' hr'
    exact hfresh c' r' hc'
  have hopen' : ∀ r', ¬ s₁.readClosed r' := by
    intro r' hr'
    unfold TunnelState.readClosed at hr'
    rw [hconn] at hr'
    by_cases hr : r' = r
    · subst hr
      rw [Function.update_self] at hr'
      cases hr'
    · rw [Function.update_of_ne hr] at hr'
      exact hopen r' hr'
  refine ⟨h.count.frame [_] hlog (by simp) fun r' => iff_of_false (hopen' r') (hopen r'),
    fun c' r' hr' => ?_, fun c' r' _ hr' => absurd hr' (hopen' r'), fun c' hc' => ?_,
    fun hs => absurd hs hnot, fun hs => absurd hs hnot⟩
  · dsimp only at hr' ⊢
    rw [hlog] at hr'
    have heq := (List.mem_cons.mp hr').resolve_right (hfresh c' r')
    cases heq
    rw [hconns, AList.lookup_insert]
    exact Or.inl rfl
  · dsimp only at hc'
    rw [hcore] at hc'
    obtain ⟨r', hr'⟩ := hT.serving.removing hc'
    exact absurd hr' (hfresh c' r')

theorem ReadInv.exec (h : ReadInv s) (hT : TunnelInv s) (hC : ChanInv s)
    (ht : s.threads t = op :: rest) (hok : ClosesAll s.shared t c op)
    (hex : exec s.shared t c op = some (s₁, ops, start)) :
    ReadInv ⟨s₁, Pool.spawn (Function.update s.threads t (ops ++ rest)) start⟩ := by
  have hsame : Pool.spawn (Function.update s.threads t (ops ++ rest)) start .serve =
      Function.update s.threads t (ops ++ rest) .serve :=
    Pool.spawn_of_ne (exec_start hex (Or.inl rfl))
  by_cases hs : t = .serve
  · subst hs
    cases hm : op.isMetric with
    | true =>
        obtain ⟨rfl, hops, status, gauge, rfl⟩ := exec_metric hm hex
        refine h.aside [] rfl (by simp) rfl rfl (fun _ => Iff.rfl) ?_
        rw [hsame, Function.update_self, ht, core_append, core_metric hops]
        simp [core, hm]
    | false => exact h.exec_serve hT hC ht hm hok hex (hsame.trans (Function.update_self ..))
  · have hop : op.byServe = false := Bool.eq_false_iff.mpr fun hop =>
      hs (hT.byServe hop (by rw [ht]; exact List.mem_cons_self))
    have hcore : core (Pool.spawn (Function.update s.threads t (ops ++ rest)) start .serve) =
        core (s.threads .serve) := by
      rw [hsame, Function.update_of_ne (Ne.symm hs)]
    obtain ⟨es, hlog, hby, -, hdone, hoffer, hconns⟩ := exec_aside hop hex
    rcases hconns with ⟨cid, r, rfl, hconns, hconn⟩ | ⟨hconns, hreg, hread⟩
    · have hj := (hT.exec ht hex).history.justified
      rw [show s₁.log = .registered cid r :: s.shared.log from hlog] at hj
      exact h.register hT hj.1.1 hj.1.2 hlog hconns hconn hdone hcore
    · refine h.aside es hlog (fun e he => ⟨?_, ?_, ?_⟩) hconns hdone (fun r => ?_) hcore
      · rintro r rfl
        exact hby _ he
      · rintro c' r rfl
        exact hreg c' r he
      · -- Nothing is offered any more.
        rintro hstopped r res rfl
        have hwait := (hT.offered r res).mp (hoffer r res he)
        rcases hstopped with hstopped | hd
        · rw [hwait] at hstopped
          cases hstopped
        · rw [hT.done hd] at hwait
          cases hwait
      · unfold TunnelState.readClosed
        rw [hread r]

theorem ReadInv.arrive (h : ReadInv s) {a : TunnelAction}
    (harr : arrive s.shared a = some (s₁, start))
    (hthreads : Pool.Arrived s.threads start threads) : ReadInv ⟨s₁, threads⟩ := by
  obtain ⟨hdone, hflags⟩ := arrive_flags harr
  have hsame : ∀ r, s₁.readClosed r ↔ s.shared.readClosed r := by
    intro r
    unfold TunnelState.readClosed
    rw [(hflags r).1]
  obtain ⟨es, hlog, hconns, hes⟩ : ∃ es, s₁.log = es ++ s.shared.log ∧
      s₁.conns = s.shared.conns ∧ ∀ e ∈ es, (∀ r, e ≠ .readClosed r) ∧
        (∀ c r, e ≠ .registered c r) ∧ ∀ r res, e ≠ .handed r res := by
    cases a <;> simp only [Konnectivity.Client.arrive] at harr <;> repeat' split at harr
    all_goals cases harr
    all_goals first
      | exact ⟨[], rfl, rfl, by simp⟩
      | exact ⟨[_], rfl, rfl, by simp⟩
  have hes' : ∀ e ∈ es, (∀ r, e ≠ .readClosed r) ∧ (∀ c r, e ≠ .registered c r) ∧
      (Stopped s → ∀ r res, e ≠ .handed r res) :=
    fun e he => ⟨(hes e he).1, (hes e he).2.1, fun _ => (hes e he).2.2⟩
  by_cases hserve : threads .serve = s.threads .serve
  · exact h.aside es hlog hes' hconns hdone hsame (by rw [hserve])
  · obtain ⟨ops', rfl⟩ : ∃ ops', start = some (.serve, ops') := by
      cases start with
      | none => exact absurd (congrFun hthreads _) hserve
      | some st =>
          by_cases hx : st.1 = .serve
          · exact ⟨st.2, by rw [← hx]⟩
          · obtain ⟨-, rfl⟩ := hthreads
            exact absurd (Function.update_of_ne (Ne.symm hx) _ _) hserve
    have hrun := arrive_serve harr
    have hidle : s.threads .serve = [] := hthreads.1
    have hstarted : threads .serve = serveExit ∨ ∃ pkt, threads .serve = [.dispatch pkt] := by
      rw [hthreads.started]
      cases a <;> simp only [Konnectivity.Client.arrive] at harr <;> repeat' split at harr
      all_goals cases harr
      · exact Or.inr ⟨_, rfl⟩
      · exact Or.inl rfl
    refine h.quiet es hlog hes' hconns hsame (fun c hc => ?_) (fun c hc => ?_) (iff_of_false ?_ ?_)
    · rcases hstarted with hst | ⟨pkt, hst⟩ <;>
        simp [hst, core, serveExit, Op.isMetric] at hc
    · rw [hidle] at hc
      cases hc
    · rintro (hs | hs)
      · rcases hstarted with hst | ⟨pkt, hst⟩ <;>
          simp [hst, core, serveExit, Op.isMetric] at hs
      · rw [hdone, hrun] at hs
        cases hs
    · rintro (hs | hs)
      · rw [hidle] at hs
        cases hs
      · rw [hrun] at hs
        cases hs

end Steps

theorem tunnel_read {okExec : TunnelState → Tid → Choice → Op → Prop}
    {okArrive : TunnelState → TunnelAction → Prop} {s : System.State TunnelState Tid Op}
    (hexec : ∀ s t c op, okExec s t c op → ClosesAll s t c op)
    (h : Reach tunnel.step (System.Allowed okExec okArrive) newTunnel s) : ReadInv s := by
  refine System.invariant_state ReadInv ?_ ?_ ?_ h
  · have hnot : ¬ Stopped newTunnel := by
      rintro (hs | hs)
      · cases hs
      · cases hs
    exact ⟨⟨(fun r hr => nomatch hr), fun r _ => rfl, (fun r hr => nomatch hr)⟩,
      (fun c r hr => nomatch hr), (fun c r hl => nomatch hl), (fun c hc => nomatch hc),
      fun hs => absurd hs hnot, fun hs => absurd hs hnot⟩
  · intro s t c o rest s₁ ops start hr hinv _ ht hok hex
    exact hinv.exec (tunnel_inv hr) (tunnel_chans hr) ht (hexec _ _ _ _ hok) hex
  · intro s a s₁ start threads hr hinv _ _ harr hthreads
    exact hinv.arrive harr hthreads

/-! ## No reader is stranded -/

theorem closeReadCh_returned (s : TunnelState) (r r' : DialID) :
    ((s.closeReadCh r).conn r').returned = (s.conn r').returned := by
  by_cases hr : r' = r
  · subst hr
    unfold TunnelState.closeReadCh
    split
    · rfl
    · rw [TunnelState.setConn_conn, Function.update_self]
  · rw [closeReadCh_other s hr]

theorem closeAll_returned (rs : List DialID) (s : TunnelState) (r : DialID) :
    ((rs.foldl TunnelState.closeReadCh s).conn r).returned = (s.conn r).returned := by
  induction rs generalizing s with
  | nil => rfl
  | cons r' rs ih => rw [List.foldl_cons, ih, closeReadCh_returned]

/-- Whose connections have been returned. -/
def ReturnInv (s : TunnelState) : Prop :=
  ∀ r c, .dialReturned r (.conn c) ∈ s.log → (s.conn r).returned = true

theorem ReturnInv.mono {s s₁ : TunnelState} (h : ReturnInv s)
    (hlog : ∀ r c, .dialReturned r (.conn c) ∈ s₁.log → .dialReturned r (.conn c) ∈ s.log)
    (hconn : ∀ r, (s.conn r).returned = true → (s₁.conn r).returned = true) : ReturnInv s₁ :=
  fun r c hr => hconn r (h r c (hlog r c hr))

theorem setConn_returned {s : TunnelState} {r : DialID} {x : Conn}
    (hx : (s.conn r).returned = true → x.returned = true) (r' : DialID)
    (h : (s.conn r').returned = true) : ((s.setConn r x).conn r').returned = true := by
  by_cases hr : r' = r
  · subst hr
    rw [TunnelState.setConn_conn, Function.update_self]
    exact hx h
  · rw [TunnelState.setConn_conn, Function.update_of_ne hr]
    exact h

theorem ReturnInv.exec {s s₁ : TunnelState} {t : Tid} {c : Choice} {op : Op} {ops : List Op}
    {start : Option (Tid × List Op)} (h : ReturnInv s)
    (hfresh : ∀ cid r, op = .connsAdd cid r → ∀ c, .dialReturned r (.conn c) ∉ s.log)
    (hex : exec s t c op = some (s₁, ops, start)) : ReturnInv s₁ := by
  cases op with
  | sendReadCh r pkt data =>
      simp only [Konnectivity.Client.exec] at hex
      obtain ⟨⟨s', ops'⟩, hsend, heq⟩ := Option.map_eq_some_iff.mp hex
      cases heq
      unfold TunnelState.sendReadCh at hsend
      repeat' split at hsend
      all_goals cases hsend
      all_goals try exact h
      exact h.mono (by simp) (setConn_returned id)
  | closeReadCh r =>
      simp only [Konnectivity.Client.exec] at hex
      cases hex
      refine h.mono (fun r' c' hr => ?_) fun r' hr => by rwa [closeReadCh_returned]
      rw [(closeReadCh_frame s r).2.2.2.2] at hr
      simpa using hr
  | sendCloseCh r pkt error =>
      simp only [Konnectivity.Client.exec] at hex
      split at hex <;> cases hex
      · exact h
      · exact h.mono (by simp) (setConn_returned id)
  | closeCloseCh r =>
      simp only [Konnectivity.Client.exec] at hex
      split at hex <;> cases hex
      · exact h
      · exact h.mono (by simp) (setConn_returned id)
  | closeAll =>
      simp only [Konnectivity.Client.exec] at hex
      cases hex
      refine h.mono (fun r' c' hr => ?_) fun r' hr => by rwa [closeAll_returned]
      rw [(closeAll_frame s.conns.values s).2.2.2.2] at hr
      simpa using hr
  | connsAdd cid r =>
      simp only [Konnectivity.Client.exec] at hex
      cases hex
      intro r' c' hr
      replace hr : .dialReturned r' (.conn c') ∈ s.log := by simpa using hr
      have hne : r' ≠ r := by
        rintro rfl
        exact hfresh cid r' rfl c' hr
      rw [TunnelState.record_conn, TunnelState.setConn_conn, Function.update_of_ne hne]
      exact h r' c' hr
  | dialReturn r ret =>
      simp only [Konnectivity.Client.exec] at hex
      split at hex <;> cases hex
      · intro r' c' hr
        rcases List.mem_cons.mp hr with heq | hr
        · cases heq
          rw [TunnelState.setConn_conn, Function.update_self]
        · exact setConn_returned (fun _ => rfl) r' (h r' c' hr)
      · exact h.mono (by simp) fun _ => id
  | connClose r =>
      simp only [Konnectivity.Client.exec] at hex
      split at hex <;> cases hex
      · exact h
      · exact h.mono (by simp) (setConn_returned id)
  | awaitClose r =>
      simp only [Konnectivity.Client.exec] at hex
      repeat' split at hex
      all_goals cases hex
      all_goals try exact h
      exact h.mono (by simp) (setConn_returned id)
  | awaitTaken r res =>
      simp only [Konnectivity.Client.exec] at hex
      obtain ⟨⟨s', ops'⟩, haw, heq⟩ := Option.map_eq_some_iff.mp hex
      cases heq
      unfold TunnelState.awaitTaken at haw
      repeat' split at haw
      all_goals cases haw
      all_goals exact h
  | awaitResult r =>
      simp only [Konnectivity.Client.exec] at hex
      unfold TunnelState.awaitResult at hex
      repeat' split at hex
      all_goals cases hex
      all_goals try exact h
      exact h.mono (by simp) fun _ => id
  | _ =>
      simp only [Konnectivity.Client.exec] at hex
      repeat' split at hex
      all_goals cases hex
      all_goals first
        | exact h
        | exact h.mono (by simp) fun _ => id

theorem ReturnInv.arrive {s s₁ : TunnelState} {a : TunnelAction}
    {start : Option (Tid × List Op)} (h : ReturnInv s) (harr : arrive s a = some (s₁, start)) :
    ReturnInv s₁ := by
  have hreads : ∀ (x : Conn) (n : Nat) (data : Bytes),
      x.returned = true → (x.read n data).1.returned = true := by
    intro x n data hx
    unfold Conn.read
    repeat' split
    all_goals exact hx
  cases a with
  | read r n =>
      simp only [Konnectivity.Client.arrive] at harr
      repeat' split at harr
      all_goals cases harr
      · exact h.mono (by simp) (setConn_returned (hreads _ _ _))
      · exact h.mono (by simp) (setConn_returned fun hr => hreads _ _ _ hr)
  | _ =>
      simp only [Konnectivity.Client.arrive] at harr
      repeat' split at harr
      all_goals cases harr
      all_goals exact h.mono (by simp) fun _ => id

theorem tunnel_returned {okExec : TunnelState → Tid → Choice → Op → Prop}
    {okArrive : TunnelState → TunnelAction → Prop} {s : System.State TunnelState Tid Op}
    (h : Reach tunnel.step (System.Allowed okExec okArrive) newTunnel s) : ReturnInv s.shared := by
  refine System.invariant_state (fun s => ReturnInv s.shared) ?_ ?_ ?_ h
  · exact fun r c hr => nomatch hr
  · intro s t c o rest s₁ ops start hr hinv _ ht _ hex
    refine hinv.exec (fun cid r ho c' hret => ?_) hex
    subst ho
    change exec s.shared t c (.connsAdd cid r) = some (s₁, ops, start) at hex
    have hj := ((tunnel_inv hr).exec ht hex).history.justified
    simp only [exec] at hex
    cases hex
    exact hj.1.2 c' r ((tunnel_inv hr).history.returned hret)
  · intro s a s₁ start threads _ hinv _ _ harr _
    exact hinv.arrive harr

/-- A `Read` of the connection returns, and with nothing buffered it returns `io.EOF`. -/
def ReadReturns (s : TunnelState) (r : DialID) (n : Nat) : Prop :=
  ∃ s₁, arrive s (.read r n) = some (s₁, none) ∧
    ((s.conn r).rdata = [] → (s.conn r).readCh.buf = [] → s₁.log = .readReturned r none :: s.log)

/-- `conn.Read` never blocks once the channel is closed. -/
theorem readReturns_of_closed {s : TunnelState} {r : DialID} (hret : (s.conn r).returned = true)
    (hclosed : s.readClosed r) (n : Nat) : ReadReturns s r n := by
  unfold ReadReturns
  simp only [arrive, hret, Bool.not_true, Bool.false_eq_true, if_false]
  by_cases hr : (s.conn r).rdata = []
  · rw [if_neg (not_not.mpr hr)]
    cases hb : (s.conn r).readCh.buf with
    | nil =>
        simp only [GoChan.recv, hb, show (s.conn r).readCh.closed = true from hclosed, if_true]
        exact ⟨_, rfl, fun _ _ => rfl⟩
    | cons data buf =>
        simp only [GoChan.recv, hb]
        exact ⟨_, rfl, fun _ hnil => by cases hnil⟩
  · rw [if_pos hr]
    exact ⟨_, rfl, fun hnil => absurd hnil hr⟩

/-- No channel was closed twice, and once the tunnel is done every connection
`dialContext` has returned has its channel closed, and its readers return. -/
structure NoneStranded (s : TunnelState) : Prop where
  once : ∀ r, s.log.count (.readClosed r) ≤ 1
  closed : s.done = true → ∀ r c, .dialReturned r (.conn c) ∈ s.log →
    s.readClosed r ∧ s.log.count (.readClosed r) = 1 ∧ ∀ n, ReadReturns s r n

/-- Over any run in which `closeAll` finds the connection registered whose
result was handed over, no reader is stranded. -/
theorem reader_not_stranded {s : System.State TunnelState Tid Op}
    (h : Reach tunnel.step (System.Allowed ClosesAll fun _ _ => True) newTunnel s) :
    NoneStranded s.shared := by
  have hinv := tunnel_read (fun _ _ _ _ h => h) h
  have hT := tunnel_inv h
  constructor
  · intro r
    by_cases hr : s.shared.readClosed r
    · exact Nat.le_of_eq (hinv.count.closed r hr)
    · rw [hinv.count.unclosed r hr]
      exact Nat.zero_le 1
  · intro hd r c hret
    have hclosed := hinv.stopped (Or.inr hd) c r (hT.history.returned hret)
    exact ⟨hclosed, hinv.count.closed r hclosed,
      readReturns_of_closed (tunnel_returned h r c hret) hclosed⟩

/-- A tunnel that ends under a connection that has been returned. -/
theorem reader_not_stranded_returned :
    ∃ s : System.State TunnelState Tid Op,
      Reach tunnel.step (System.Allowed ClosesAll fun _ _ => True) newTunnel s ∧
        s.shared.done = true ∧ .dialReturned 10 (.conn 1) ∈ s.shared.log ∧
        NoneStranded s.shared := by
  let acts : List (System.Action Tid TunnelAction Choice) :=
    [.arrive (.dialContext 10 "tcp" "h"), .run .dial {}, .run .dial {}, .run .dial {},
      .run .dial {}, .run .dial {}, .run .dial {}, .run .dial {},
      .arrive (.receive (.ofDialResponse ⟨"", 1, 10⟩)), .run .serve {}, .run .serve {},
      .run .serve {}, .run .serve {}, .run .serve {}, .run .serve {}, .run .serve {},
      .run .dial {}, .run .serve {}, .run .dial {}, .run .dial {}, .run .dial {}, .run .dial {},
      .arrive .recvEnd, .run .serve {}, .run .serve {}, .run .serve {}, .run .serve {},
      .run .serve {}]
  have hrun : ∃ s, run tunnel.step newTunnel acts = some s ∧ s.shared.done = true ∧
      .dialReturned 10 (.conn 1) ∈ s.shared.log :=
    ⟨_, rfl, rfl, by decide⟩
  obtain ⟨s, hs, hd, hret⟩ := hrun
  have hreach : Reach tunnel.step (System.Allowed ClosesAll fun _ _ => True) newTunnel s :=
    reach_of_run hs (by decide)
  exact ⟨s, hreach, hd, hret, reader_not_stranded hreach⟩

/-- A tunnel that ends between the hand-over and the registration: `closeAll`
finds nothing, and the reader of the connection `dialContext` then returns
waits at an open channel nobody will ever close. -/
theorem reader_stranded :
    ∃ s : System.State TunnelState Tid Op,
      Reach tunnel.step System.unrestricted newTunnel s ∧
        s.shared.done = true ∧ .dialReturned 10 (.conn 1) ∈ s.shared.log ∧
        (s.shared.conn 10).readCh.closed = false ∧ (∀ n, arrive s.shared (.read 10 n) = none) ∧
        ¬ NoneStranded s.shared := by
  let acts : List (System.Action Tid TunnelAction Choice) :=
    [.arrive (.dialContext 10 "tcp" "h"), .run .dial {}, .run .dial {}, .run .dial {},
      .run .dial {}, .run .dial {}, .run .dial {}, .run .dial {},
      .arrive (.receive (.ofDialResponse ⟨"", 1, 10⟩)), .run .serve {}, .run .serve {},
      .run .serve {}, .run .serve {}, .run .serve {}, .run .serve {}, .run .serve {},
      .run .dial {}, .run .serve {}, .arrive .recvEnd, .run .serve {}, .run .serve {},
      .run .serve {}, .run .serve {}, .run .serve {}, .run .dial {}, .run .dial {}, .run .dial {},
      .run .dial {}]
  have hrun : ∃ s, run tunnel.step newTunnel acts = some s ∧ s.shared.done = true ∧
      .dialReturned 10 (.conn 1) ∈ s.shared.log ∧ (s.shared.conn 10).readCh.closed = false ∧
      ∀ n, arrive s.shared (.read 10 n) = none :=
    ⟨_, rfl, rfl, by decide, rfl, fun _ => rfl⟩
  obtain ⟨s, hs, hd, hret, hopen, hblocked⟩ := hrun
  refine ⟨s, reach_of_run hs (by decide), hd, hret, hopen, hblocked, fun h => ?_⟩
  have hclosed := (h.closed hd 10 1 hret).1
  rw [TunnelState.readClosed, hopen] at hclosed
  cases hclosed

end Konnectivity.Client
