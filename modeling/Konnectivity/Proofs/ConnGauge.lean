import Mathlib.Algebra.Ring.Int.Defs
import Konnectivity.Proofs.TunnelInv

/-!
# The connections gauge of the client

A tunnel counts itself under one status. `updateMetric` moves the count in
four steps and `closeMetric` takes it back in three, so the books are kept
with what the goroutines still owe: the gauge and the increments and
decrements under way add up to one under the current status until `serve`
loads that status to close the metric, and to nothing after that. The one
thing that breaks them is a swap of the status after that load.
-/

namespace Konnectivity.Client

open Lib

/-- What an operation will add to the gauge of a status. -/
def Op.owed (status : ConnectionStatus) : Op → Int
  | .gaugeDec status' => if status' = status then -1 else 0
  | .gaugeInc status' => if status' = status then 1 else 0
  | _ => 0

/-- What a goroutine will add to the gauge of a status. -/
def owed (status : ConnectionStatus) (ops : List Op) : Int := (ops.map (Op.owed status)).sum

theorem owed_nil (status : ConnectionStatus) : owed status [] = 0 := rfl

theorem owed_cons (status : ConnectionStatus) (op : Op) (ops : List Op) :
    owed status (op :: ops) = op.owed status + owed status ops := by
  simp [owed]

theorem owed_append (status : ConnectionStatus) (ops rest : List Op) :
    owed status (ops ++ rest) = owed status ops + owed status rest := by
  simp [owed]

/-- The account of a tunnel under a status. -/
def balance (s : System.State TunnelState Tid Op) (status : ConnectionStatus) : Int :=
  s.shared.gauge status + owed status (s.threads .dial) + owed status (s.threads .serve)

/-! ## The way of `serve` through the metrics -/

/-- What comes after an operation of `serve`. -/
def ServeNext : Op → List Op → Prop
  | .dispatch _, rest | .pendingGet _ _, rest | .offerResult _ _, rest => rest = []
  | .awaitTaken _ _, rest | .connsGet _ _, rest | .sendReadCh _ _ _, rest => rest = []
  | .send _ k, rest => k = .done ∧ rest = []
  | .closeReadCh _, rest => ∃ r pkt error r' connID,
      rest = [.sendCloseCh r pkt error, .closeCloseCh r', .connsRemove connID] ++ serveExit
  | .sendCloseCh _ _ _, rest => ∃ r connID,
      rest = [.closeCloseCh r, .connsRemove connID] ++ serveExit
  | .closeCloseCh _, rest => ∃ connID, rest = .connsRemove connID :: serveExit
  | .connsRemove _, rest => rest = serveExit
  | .closeAll, rest => rest = [.closeMetric, .closeDone]
  | .closeMetric, rest | .loadStatus, rest => rest = [.closeDone]
  | .closeDone, rest => rest = []
  | .updateMetric _, rest | .swapStatus _, rest | .gaugeInc _, rest =>
      ∃ r res, rest = [.offerResult r res]
  | .gaugeDec _, rest => rest = [.closeDone] ∨
      ∃ status r res, rest = [.gaugeInc status, .offerResult r res]
  | _, _ => False

/-- `serve` closes the metric and has loaded the status. -/
def exiting : List Op → Bool
  | [.gaugeDec _, .closeDone] | [.closeDone] => true
  | _ => false

def Op.loads : Op → Bool
  | .loadStatus => true
  | _ => false

/-- A way of `serve` before it loads the status. -/
def OnWay (ops : List Op) : Prop := Pool.Each ServeNext ops ∧ exiting ops = false

theorem serveExit_onWay : OnWay serveExit :=
  ⟨⟨rfl, rfl, rfl, trivial⟩, rfl⟩

theorem nil_onWay : OnWay [] :=
  ⟨trivial, rfl⟩

section Steps

variable {s : System.State TunnelState Tid Op} {s₁ : TunnelState} {t : Tid} {c : Choice} {op : Op}
  {ops rest : List Op} {start : Option (Tid × List Op)}

theorem dispatch_onWay {pkt : Packet} (h : serve pkt = some ops) : OnWay ops := by
  unfold serve at h
  split at h
  · obtain ⟨resp, -, rfl⟩ := Option.map_eq_some_iff.mp h
    exact ⟨⟨rfl, trivial⟩, rfl⟩
  · obtain ⟨resp, -, rfl⟩ := Option.map_eq_some_iff.mp h
    exact ⟨⟨rfl, trivial⟩, rfl⟩
  · obtain ⟨resp, -, rfl⟩ := Option.map_eq_some_iff.mp h
    split
    · exact nil_onWay
    · exact ⟨⟨rfl, trivial⟩, rfl⟩
  · obtain ⟨resp, -, rfl⟩ := Option.map_eq_some_iff.mp h
    exact ⟨⟨rfl, trivial⟩, rfl⟩
  · cases h
    exact nil_onWay

theorem connsGet_onWay (connID : ConnectID) (k : AfterGet) (r : Option DialID) :
    OnWay (k.next connID r) := by
  unfold AfterGet.next
  split
  · exact ⟨⟨⟨rfl, rfl⟩, trivial⟩, rfl⟩
  · exact ⟨⟨rfl, trivial⟩, rfl⟩
  · exact nil_onWay
  · exact ⟨⟨⟨_, _, _, _, _, rfl⟩, ⟨_, _, rfl⟩, ⟨_, rfl⟩, rfl, serveExit_onWay.1⟩, rfl⟩

theorem awaitTaken_onWay {s s₁ : TunnelState} {r : DialID} {res : DialResult} {case : Case}
    (h : s.awaitTaken r res case = some (s₁, ops)) : OnWay ops := by
  unfold TunnelState.awaitTaken at h
  repeat' split at h
  all_goals cases h
  · exact serveExit_onWay
  · exact nil_onWay
  · exact serveExit_onWay
  · exact serveExit_onWay

theorem sendReadCh_onWay {s s₁ : TunnelState} {r : DialID} {pkt : Packet} {data : Bytes}
    {case : Case} (h : s.sendReadCh r pkt data case = some (s₁, ops)) : OnWay ops := by
  unfold TunnelState.sendReadCh at h
  repeat' split at h
  all_goals cases h
  · exact nil_onWay
  · exact nil_onWay
  · exact serveExit_onWay
  · exact nil_onWay

/-- A step of `serve` keeps to the way, and only one of its operations loads
the status. -/
theorem exec_next {s : TunnelState} (h : Pool.Each ServeNext (op :: rest)) (hdone : s.done = false)
    (hex : exec s .serve c op = some (s₁, ops, start)) :
    Pool.Each ServeNext (ops ++ rest) ∧
      (exiting (ops ++ rest) = (op.loads || exiting (op :: rest)) ∨ op = .closeDone) := by
  obtain ⟨hnext, hrest⟩ := h
  cases op with
  | dispatch pkt =>
      obtain rfl : rest = [] := hnext
      rw [List.append_nil]
      simp only [exec] at hex
      split at hex
      · cases hex
        exact ⟨serveExit_onWay.1, Or.inl rfl⟩
      · split at hex
        · cases hex
          exact ⟨trivial, Or.inl rfl⟩
        · next hserve =>
            cases hex
            exact ⟨(dispatch_onWay hserve).1, Or.inl (dispatch_onWay hserve).2⟩
  | pendingGet r res =>
      obtain rfl : rest = [] := hnext
      rw [List.append_nil]
      simp only [exec] at hex
      split at hex
      · cases hex
        exact ⟨serveExit_onWay.1, Or.inl rfl⟩
      · cases hex
        split
        · exact ⟨⟨⟨_, _, rfl⟩, rfl, trivial⟩, Or.inl rfl⟩
        · exact ⟨⟨rfl, trivial⟩, Or.inl rfl⟩
  | offerResult r res =>
      obtain rfl : rest = [] := hnext
      cases hex
      exact ⟨⟨rfl, trivial⟩, Or.inl rfl⟩
  | awaitTaken r res =>
      obtain rfl : rest = [] := hnext
      rw [List.append_nil]
      obtain ⟨⟨s', ops'⟩, haw, heq⟩ := Option.map_eq_some_iff.mp hex
      cases heq
      exact ⟨(awaitTaken_onWay haw).1, Or.inl (awaitTaken_onWay haw).2⟩
  | connsGet connID k =>
      obtain rfl : rest = [] := hnext
      rw [List.append_nil]
      cases hex
      exact ⟨(connsGet_onWay ..).1, Or.inl (connsGet_onWay ..).2⟩
  | sendReadCh r pkt data =>
      obtain rfl : rest = [] := hnext
      rw [List.append_nil]
      obtain ⟨⟨s', ops'⟩, hsend, heq⟩ := Option.map_eq_some_iff.mp hex
      cases heq
      exact ⟨(sendReadCh_onWay hsend).1, Or.inl (sendReadCh_onWay hsend).2⟩
  | send pkt k =>
      obtain ⟨rfl, rfl⟩ := hnext
      cases hex
      exact ⟨trivial, Or.inl rfl⟩
  | closeReadCh r =>
      cases hex
      obtain ⟨_, _, _, _, _, rfl⟩ := hnext
      exact ⟨hrest, Or.inl rfl⟩
  | sendCloseCh r pkt error =>
      obtain ⟨_, _, rfl⟩ := hnext
      simp only [exec] at hex
      repeat' split at hex
      all_goals cases hex
      all_goals exact ⟨hrest, Or.inl rfl⟩
  | closeCloseCh r =>
      obtain ⟨_, rfl⟩ := hnext
      simp only [exec] at hex
      repeat' split at hex
      all_goals cases hex
      all_goals exact ⟨hrest, Or.inl rfl⟩
  | connsRemove connID =>
      cases hex
      obtain rfl : rest = serveExit := hnext
      exact ⟨hrest, Or.inl rfl⟩
  | closeAll =>
      cases hex
      obtain rfl : rest = [.closeMetric, .closeDone] := hnext
      exact ⟨hrest, Or.inl rfl⟩
  | closeDone =>
      cases hex
      exact ⟨hrest, Or.inr rfl⟩
  | updateMetric status =>
      simp only [exec, hdone] at hex
      cases hex
      obtain ⟨_, _, rfl⟩ := hnext
      exact ⟨⟨⟨_, _, rfl⟩, hrest⟩, Or.inl rfl⟩
  | swapStatus status =>
      cases hex
      obtain ⟨r, res, rfl⟩ := hnext
      exact ⟨⟨Or.inr ⟨_, _, _, rfl⟩, ⟨_, _, rfl⟩, hrest⟩, Or.inl rfl⟩
  | gaugeDec status =>
      cases hex
      rcases hnext with rfl | ⟨_, _, _, rfl⟩
      · exact ⟨hrest, Or.inl rfl⟩
      · exact ⟨hrest, Or.inl rfl⟩
  | gaugeInc status =>
      cases hex
      obtain ⟨_, _, rfl⟩ := hnext
      exact ⟨hrest, Or.inl rfl⟩
  | closeMetric =>
      simp only [exec, hdone] at hex
      cases hex
      obtain rfl : rest = [.closeDone] := hnext
      exact ⟨⟨rfl, hrest⟩, Or.inl rfl⟩
  | loadStatus =>
      cases hex
      obtain rfl : rest = [.closeDone] := hnext
      exact ⟨⟨Or.inl rfl, hrest⟩, Or.inl rfl⟩
  | _ => cases hnext

/-! ## The accounts of one step -/

/-- What an operation does to the account of its goroutine. -/
def Op.moves (s : TunnelState) (status : ConnectionStatus) : Op → Int
  | .swapStatus status' =>
      (if status' = status then 1 else 0) - if s.prevStatus = status then 1 else 0
  | .loadStatus => -(if s.prevStatus = status then 1 else 0)
  | _ => 0

/-- The status after an operation. -/
def Op.status (s : TunnelState) : Op → ConnectionStatus
  | .swapStatus status => status
  | _ => s.prevStatus

theorem serve_owed {pkt : Packet} (h : serve pkt = some ops) (status : ConnectionStatus) :
    owed status ops = 0 := by
  unfold serve at h
  split at h
  · obtain ⟨resp, -, rfl⟩ := Option.map_eq_some_iff.mp h
    rfl
  · obtain ⟨resp, -, rfl⟩ := Option.map_eq_some_iff.mp h
    rfl
  · obtain ⟨resp, -, rfl⟩ := Option.map_eq_some_iff.mp h
    split <;> rfl
  · obtain ⟨resp, -, rfl⟩ := Option.map_eq_some_iff.mp h
    rfl
  · cases h
    rfl

theorem closeReadCh_gauge (s : TunnelState) (r : DialID) :
    (s.closeReadCh r).gauge = s.gauge ∧ (s.closeReadCh r).prevStatus = s.prevStatus := by
  unfold TunnelState.closeReadCh
  split <;> exact ⟨rfl, rfl⟩

theorem closeAll_gauge (rs : List DialID) (s : TunnelState) :
    (rs.foldl TunnelState.closeReadCh s).gauge = s.gauge ∧
      (rs.foldl TunnelState.closeReadCh s).prevStatus = s.prevStatus := by
  induction rs generalizing s with
  | nil => exact ⟨rfl, rfl⟩
  | cons r rs ih =>
      obtain ⟨hgauge, hstatus⟩ := ih (s.closeReadCh r)
      obtain ⟨hgauge', hstatus'⟩ := closeReadCh_gauge s r
      exact ⟨hgauge.trans hgauge', hstatus.trans hstatus'⟩

/-- An operation that is no metric owes nothing and starts nothing that does. -/
theorem exec_unmetered {s : TunnelState} (hop : op.isMetric = false)
    (hex : exec s t c op = some (s₁, ops, start)) (status : ConnectionStatus) :
    s₁.gauge = s.gauge ∧ s₁.prevStatus = s.prevStatus ∧ owed status ops = 0 := by
  cases op with
  | dispatch pkt =>
      simp only [exec] at hex
      split at hex
      · cases hex
        exact ⟨rfl, rfl, rfl⟩
      · split at hex
        · cases hex
          exact ⟨rfl, rfl, rfl⟩
        · next hserve =>
            cases hex
            exact ⟨rfl, rfl, serve_owed hserve status⟩
  | pendingGet r res =>
      simp only [exec] at hex
      split at hex
      · cases hex
        exact ⟨rfl, rfl, rfl⟩
      · cases hex
        refine ⟨rfl, rfl, ?_⟩
        split <;> rfl
  | connsGet connID k =>
      cases hex
      refine ⟨rfl, rfl, ?_⟩
      unfold AfterGet.next
      split <;> rfl
  | awaitTaken r res =>
      obtain ⟨⟨s', ops'⟩, haw, heq⟩ := Option.map_eq_some_iff.mp hex
      cases heq
      unfold TunnelState.awaitTaken at haw
      repeat' split at haw
      all_goals cases haw
      all_goals exact ⟨rfl, rfl, rfl⟩
  | sendReadCh r pkt data =>
      obtain ⟨⟨s', ops'⟩, hsend, heq⟩ := Option.map_eq_some_iff.mp hex
      cases heq
      unfold TunnelState.sendReadCh at hsend
      repeat' split at hsend
      all_goals cases hsend
      all_goals exact ⟨rfl, rfl, rfl⟩
  | closeReadCh r =>
      cases hex
      exact ⟨(closeReadCh_gauge s r).1, (closeReadCh_gauge s r).2, rfl⟩
  | closeAll =>
      cases hex
      exact ⟨(closeAll_gauge _ s).1, (closeAll_gauge _ s).2, rfl⟩
  | awaitResult r =>
      simp only [exec] at hex
      unfold TunnelState.awaitResult at hex
      repeat' split at hex
      all_goals cases hex
      · refine ⟨rfl, rfl, ?_⟩
        unfold DialResult.next
        split <;> rfl
      all_goals exact ⟨rfl, rfl, rfl⟩
  | send pkt k =>
      cases hex
      refine ⟨rfl, rfl, ?_⟩
      split <;> rfl
  | _ =>
      first
      | cases hop
        done
      | simp only [exec] at hex
        repeat' split at hex
        all_goals cases hex
        all_goals exact ⟨rfl, rfl, rfl⟩

theorem unmetered (hop : op.isMetric = false) (s : TunnelState) (status : ConnectionStatus) :
    op.owed status = 0 ∧ op.moves s status = 0 ∧ op.status s = s.prevStatus := by
  cases op <;> first | exact ⟨rfl, rfl, rfl⟩ | cases hop

/-- The account of the goroutine that makes a step. -/
theorem exec_account {s : TunnelState} (hex : exec s t c op = some (s₁, ops, start))
    (status : ConnectionStatus) :
    s₁.gauge status + owed status ops = s.gauge status + op.owed status + op.moves s status ∧
      s₁.prevStatus = op.status s := by
  cases hop : op.isMetric with
  | false =>
      obtain ⟨hgauge, hstatus, howed⟩ := exec_unmetered hop hex status
      obtain ⟨hnone, hmoves, hkept⟩ := unmetered hop s status
      rw [hgauge, hstatus, howed, hnone, hmoves, hkept]
      exact ⟨by omega, rfl⟩
  | true =>
      cases op with
      | updateMetric status' =>
          cases hex
          refine ⟨?_, rfl⟩
          split <;> simp [owed_cons, owed_nil, Op.owed, Op.moves]
      | swapStatus status' =>
          cases hex
          refine ⟨?_, rfl⟩
          simp only [owed_cons, owed_nil, Op.owed, Op.moves]
          split <;> split <;> omega
      | gaugeDec status' =>
          cases hex
          refine ⟨?_, rfl⟩
          by_cases h : status' = status
          · subst h
            simp [Op.owed, Op.moves, owed_nil]
            omega
          · simp [Op.owed, Op.moves, owed_nil, h, Function.update_of_ne (Ne.symm h)]
      | gaugeInc status' =>
          cases hex
          refine ⟨?_, rfl⟩
          by_cases h : status' = status
          · subst h
            simp [Op.owed, Op.moves, owed_nil]
          · simp [Op.owed, Op.moves, owed_nil, h, Function.update_of_ne (Ne.symm h)]
      | closeMetric =>
          cases hex
          refine ⟨?_, rfl⟩
          split <;> simp [owed_cons, owed_nil, Op.owed, Op.moves]
      | loadStatus =>
          cases hex
          refine ⟨?_, rfl⟩
          simp only [owed_cons, owed_nil, Op.owed, Op.moves]
          split <;> omega
      | _ => cases hop

/-! ## Until the status is loaded, and after -/

/-- `serve` has loaded the status to close the metric. -/
def loaded (s : System.State TunnelState Tid Op) : Bool :=
  s.shared.done || exiting (s.threads .serve)

/-- One tunnel's share of the gauge of a status. -/
def share (s : TunnelState) (status : ConnectionStatus) : Int :=
  if s.prevStatus = status then 1 else 0

/-- `dialContext` is about to swap a status that `serve` has loaded. -/
def lateSwap (s : System.State TunnelState Tid Op) :
    System.Action Tid TunnelAction Choice → Bool
  | .run .dial _ =>
      match s.threads .dial with
      | .swapStatus _ :: _ => loaded s
      | _ => false
  | _ => false

/-- The operations of `closeMetric`. -/
def Op.ofClose : Op → Bool
  | .closeMetric | .loadStatus => true
  | _ => false

structure GaugeInv (s : System.State TunnelState Tid Op) : Prop where
  next : Pool.Each ServeNext (s.threads .serve)
  done : s.shared.done = true → s.threads .serve = []
  /-- Only `serve` closes the metric. -/
  closes : ∀ t, t ≠ .serve → ∀ o ∈ s.threads t, o.ofClose = false
  unloaded : loaded s = false → ∀ status, balance s status = share s.shared status

theorem GaugeInv.running (h : GaugeInv s) (ht : s.threads .serve = op :: rest) :
    s.shared.done = false := by
  refine Bool.eq_false_iff.mpr fun hd => ?_
  rw [h.done hd] at ht
  cases ht

theorem loaded_serve (h : GaugeInv s) (ht : s.threads .serve = op :: rest)
    (hex : exec s.shared .serve c op = some (s₁, ops, start)) {threads : Tid → List Op}
    (hserve : threads .serve = ops ++ rest) :
    loaded ⟨s₁, threads⟩ = (op.loads || loaded s) := by
  have hdone := h.running ht
  have hdone' := exec_done hex
  have hway := h.next
  rw [ht] at hway
  by_cases hop : op = .closeDone
  · subst hop
    obtain rfl : rest = [] := hway.1
    simp [loaded, hdone', ht, exiting]
  · have hexit := (exec_next hway hdone hex).2.resolve_right hop
    simp [loaded, hdone', hdone, ht, hserve, hexit, hop]

theorem loaded_aside (hT : TunnelInv s) (ht : s.threads t = op :: rest) (hs : t ≠ .serve)
    (hex : exec s.shared t c op = some (s₁, ops, start)) {threads : Tid → List Op}
    (hserve : threads .serve = s.threads .serve) :
    loaded ⟨s₁, threads⟩ = loaded s := by
  have hdone : s₁.done = s.shared.done := by
    rw [exec_done hex]
    have hop : op ≠ .closeDone := by
      rintro rfl
      exact hs (hT.byServe rfl (by rw [ht]; exact List.mem_cons_self))
    simp [hop]
  unfold loaded
  dsimp only
  rw [hdone, hserve]

/-- Whoever makes it, a step changes the balance by what it moves. -/
theorem balance_exec (hT : TunnelInv s) (ht : s.threads t = op :: rest)
    (hex : exec s.shared t c op = some (s₁, ops, start)) (status : ConnectionStatus) :
    balance ⟨s₁, Pool.spawn (Function.update s.threads t (ops ++ rest)) start⟩ status =
      balance s status + op.moves s.shared status := by
  have hsame : ∀ x, x = .serve ∨ x = .dial →
      Pool.spawn (Function.update s.threads t (ops ++ rest)) start x =
        Function.update s.threads t (ops ++ rest) x := fun x hx =>
    Pool.spawn_of_ne fun ops' => exec_start hex hx ops'
  have haccount := (exec_account hex status).1
  unfold balance
  dsimp only
  rw [hsame .serve (Or.inl rfl), hsame .dial (Or.inr rfl)]
  by_cases hs : t = .serve
  · subst hs
    rw [Function.update_self, Function.update_of_ne (by simp), owed_append, ht, owed_cons]
    omega
  · by_cases hd : t = .dial
    · subst hd
      rw [Function.update_self, Function.update_of_ne (by simp), owed_append, ht, owed_cons]
      omega
    · have hop := Op.not_metric_of_outer
        (hT.outer t hs hd op (by rw [ht]; exact List.mem_cons_self))
      rw [(exec_unmetered hop hex status).1, (unmetered hop s.shared status).2.1,
        Function.update_of_ne (Ne.symm hs), Function.update_of_ne (Ne.symm hd)]
      omega

/-- Nobody but `serve` goes on to close the metric. -/
theorem exec_closes {s : TunnelState} (hop : op.byServe = false) (hclose : op.ofClose = false)
    (hex : exec s t c op = some (s₁, ops, start)) : ∀ o ∈ ops, o.ofClose = false := by
  cases op with
  | send pkt k =>
      simp only [exec] at hex
      unfold AfterSend.next at hex
      split at hex <;> cases hex <;> simp [dialExit, Op.ofClose]
  | awaitResult r =>
      simp only [exec] at hex
      unfold TunnelState.awaitResult at hex
      repeat' split at hex
      all_goals cases hex
      · unfold DialResult.next
        split <;> simp [dialExit, Op.ofClose]
      all_goals simp [dialExit, Op.ofClose]
  | _ =>
      first
      | cases hop
        done
      | cases hclose
        done
      | simp only [exec] at hex
        repeat' split at hex
        all_goals cases hex
        all_goals simp [Op.ofClose]

theorem exec_spawns {s : TunnelState} {x : Tid} {ops' : List Op}
    (hex : exec s t c op = some (s₁, ops, some (x, ops'))) : ∀ o ∈ ops', o.ofClose = false := by
  cases op with
  | send pkt k =>
      simp only [exec] at hex
      unfold AfterSend.next at hex
      split at hex <;> cases hex
      simp [Op.ofClose]
  | awaitResult r =>
      simp only [exec] at hex
      unfold TunnelState.awaitResult canceller at hex
      repeat' split at hex
      all_goals cases hex
      all_goals simp [Op.ofClose]
  | sendReadCh r pkt data =>
      obtain ⟨y, -, heq⟩ := Option.map_eq_some_iff.mp hex
      cases heq
  | awaitTaken r res =>
      obtain ⟨y, -, heq⟩ := Option.map_eq_some_iff.mp hex
      cases heq
  | _ =>
      simp only [exec] at hex
      repeat' split at hex
      all_goals cases hex

/-- The share after a step that does not load the status. -/
theorem share_exec {s : TunnelState} (hop : op.loads = false)
    (hex : exec s t c op = some (s₁, ops, start)) (status : ConnectionStatus) :
    share s₁ status = share s status + op.moves s status := by
  have hstatus := (exec_account hex status).2
  unfold share
  cases op with
  | swapStatus status' =>
      rw [show s₁.prevStatus = status' from hstatus]
      show _ = _ + ((if status' = status then (1 : Int) else 0) - if s.prevStatus =
          status then 1 else 0)
      omega
  | loadStatus => cases hop
  | _ =>
      rw [show s₁.prevStatus = s.prevStatus from hstatus]
      exact (Int.add_zero _).symm

theorem GaugeInv.exec (h : GaugeInv s) (hT : TunnelInv s) (ht : s.threads t = op :: rest)
    (hex : exec s.shared t c op = some (s₁, ops, start)) :
    GaugeInv ⟨s₁, Pool.spawn (Function.update s.threads t (ops ++ rest)) start⟩ := by
  have hserve : Pool.spawn (Function.update s.threads t (ops ++ rest)) start .serve =
      Function.update s.threads t (ops ++ rest) .serve :=
    Pool.spawn_of_ne fun ops' => exec_start hex (Or.inl rfl) ops'
  have hmem : op ∈ s.threads t := by
    rw [ht]
    exact List.mem_cons_self
  have hcloses : ∀ x, x ≠ .serve →
      ∀ o ∈ Pool.spawn (Function.update s.threads t (ops ++ rest)) start x, o.ofClose = false := by
    intro x hx o ho
    rcases Pool.mem_of_spawn ho with hpush | ⟨ops', rfl, hspawned⟩
    · rcases Pool.mem_of_push ht hpush with ⟨rfl, hnew⟩ | hold
      · exact exec_closes (Bool.eq_false_iff.mpr fun hop => hx (hT.byServe hop hmem))
          (h.closes x hx op hmem) hex o hnew
      · exact h.closes x hx o hold
    · exact exec_spawns hex o hspawned
  by_cases hs : t = .serve
  · subst hs
    rw [Function.update_self] at hserve
    have hrun := h.running ht
    have hway := h.next
    rw [ht] at hway
    refine ⟨?_, fun hd => ?_, hcloses, fun hl status => ?_⟩
    · dsimp only
      rw [hserve]
      exact (exec_next hway hrun hex).1
    · dsimp only at hd ⊢
      rw [exec_done hex, hrun, Bool.false_or, beq_iff_eq] at hd
      subst hd
      obtain rfl : rest = [] := hway.1
      cases hex
      exact hserve
    · rw [loaded_serve h ht hex hserve, Bool.or_eq_false_iff] at hl
      rw [balance_exec hT ht hex, share_exec hl.1 hex, h.unloaded hl.2]
  · rw [Function.update_of_ne (Ne.symm hs)] at hserve
    have hload := loaded_aside hT ht hs hex hserve
    have hop : op.loads = false := by
      have := h.closes t hs op hmem
      cases op <;> first | rfl | cases this
    refine ⟨?_, fun hd => ?_, hcloses, fun hl status => ?_⟩
    · dsimp only
      rw [hserve]
      exact h.next
    · dsimp only at hd ⊢
      rw [hserve]
      refine h.done ?_
      rw [exec_done hex] at hd
      have hcd : op ≠ .closeDone := by
        rintro rfl
        exact hs (hT.byServe rfl hmem)
      simpa [hcd] using hd
    · rw [hload] at hl
      rw [balance_exec hT ht hex, share_exec hop hex, h.unloaded hl]

/-- What arrives owes nothing and keeps the status. -/
theorem arrive_account {s : TunnelState} {a : TunnelAction}
    (harr : arrive s a = some (s₁, start)) :
    s₁.gauge = s.gauge ∧ s₁.prevStatus = s.prevStatus ∧ s₁.done = s.done ∧
      ∀ x ops, start = some (x, ops) → (∀ status, owed status ops = 0) ∧
        (x = .serve → OnWay ops) ∧ (x ≠ .serve → ∀ o ∈ ops, o.ofClose = false) := by
  cases a with
  | receive pkt =>
      simp only [Konnectivity.Client.arrive] at harr
      split at harr
      · cases harr
      · cases harr
        refine ⟨rfl, rfl, rfl, fun x ops hstart => ?_⟩
        cases hstart
        exact ⟨fun _ => rfl, fun _ => ⟨⟨rfl, trivial⟩, rfl⟩, fun hx => absurd rfl hx⟩
  | recvEnd =>
      simp only [Konnectivity.Client.arrive] at harr
      split at harr
      · cases harr
      · cases harr
        refine ⟨rfl, rfl, rfl, fun x ops hstart => ?_⟩
        cases hstart
        exact ⟨fun _ => rfl, fun _ => serveExit_onWay, fun hx => absurd rfl hx⟩
  | _ =>
      simp only [Konnectivity.Client.arrive] at harr
      repeat' split at harr
      all_goals cases harr
      all_goals refine ⟨rfl, rfl, rfl, fun x ops hstart => ?_⟩
      all_goals cases hstart
      all_goals exact ⟨fun _ => rfl, (fun hx => by cases hx), fun _ => by simp [Op.ofClose]⟩

theorem balance_arrive {a : TunnelAction} (harr : arrive s.shared a = some (s₁, start))
    {threads : Tid → List Op} (hthreads : Pool.Arrived s.threads start threads)
    (status : ConnectionStatus) : balance ⟨s₁, threads⟩ status = balance s status := by
  obtain ⟨hgauge, -, -, hstart⟩ := arrive_account harr
  have howed : ∀ x, owed status (threads x) = owed status (s.threads x) := by
    intro x
    cases start with
    | none => rw [show threads = s.threads from hthreads]
    | some st =>
        obtain ⟨hidle, rfl⟩ := hthreads
        by_cases hx : x = st.1
        · rw [hx, Function.update_self, hidle, (hstart st.1 st.2 rfl).1]
          rfl
        · rw [Function.update_of_ne hx]
  unfold balance
  dsimp only
  rw [hgauge, howed, howed]

theorem loaded_arrive (h : GaugeInv s) {a : TunnelAction}
    (harr : arrive s.shared a = some (s₁, start)) {threads : Tid → List Op}
    (hthreads : Pool.Arrived s.threads start threads) :
    Pool.Each ServeNext (threads .serve) ∧ loaded ⟨s₁, threads⟩ = loaded s ∧
      (s₁.done = true → threads .serve = []) := by
  obtain ⟨-, -, hdone, hstart⟩ := arrive_account harr
  by_cases hserve : ∃ ops', start = some (.serve, ops')
  · obtain ⟨ops', rfl⟩ := hserve
    obtain ⟨hidle, rfl⟩ := hthreads
    have hrun := arrive_serve harr
    obtain ⟨hnext, hexit⟩ := (hstart .serve ops' rfl).2.1 rfl
    refine ⟨by rw [Function.update_self]; exact hnext, ?_, fun hd => ?_⟩
    · have hnil : exiting [] = false := rfl
      simp [loaded, hdone, hexit, hidle, hnil]
    · rw [hdone, hrun] at hd
      cases hd
  · have hsame : threads .serve = s.threads .serve := by
      cases start with
      | none => rw [show threads = s.threads from hthreads]
      | some st =>
          obtain ⟨-, rfl⟩ := hthreads
          exact Function.update_of_ne (fun hx => hserve ⟨st.2, by rw [hx]⟩) _ _
    rw [hsame, hdone]
    refine ⟨h.next, ?_, h.done⟩
    unfold loaded
    dsimp only
    rw [hdone, hsame]

theorem GaugeInv.arrive (h : GaugeInv s) {a : TunnelAction}
    (harr : arrive s.shared a = some (s₁, start)) {threads : Tid → List Op}
    (hthreads : Pool.Arrived s.threads start threads) : GaugeInv ⟨s₁, threads⟩ := by
  obtain ⟨hnext, hload, hdone⟩ := loaded_arrive h harr hthreads
  obtain ⟨-, hstatus, -, hstart⟩ := arrive_account harr
  refine ⟨hnext, hdone, fun x hx o ho => ?_, fun hl status => ?_⟩
  · rcases hthreads.of_mem ho with ho | ⟨ops', rfl, ho⟩
    · exact h.closes x hx o ho
    · exact (hstart x ops' rfl).2.2 hx o ho
  · rw [hload] at hl
    rw [balance_arrive harr hthreads, h.unloaded hl, share, share, hstatus]

end Steps

/-! ## Runs -/

variable {s : System.State TunnelState Tid Op}

theorem tunnel_gauge {okExec : TunnelState → Tid → Choice → Op → Prop}
    {okArrive : TunnelState → TunnelAction → Prop}
    (h : Reach tunnel.step (System.Allowed okExec okArrive) newTunnel s) : GaugeInv s := by
  refine System.invariant_state GaugeInv ?_ ?_ ?_ h
  · refine ⟨trivial, (fun hd => nomatch hd), (fun t _ o ho => nomatch ho), fun _ status => ?_⟩
    show (if status = .created then (1 : Int) else 0) + 0 + 0 = if .created = status then 1 else 0
    cases status <;> rfl
  · intro s t c o rest s₁ ops start hr hinv _ ht _ hex
    exact hinv.exec (tunnel_inv hr) ht hex
  · intro s a s₁ start threads _ hinv _ _ harr hthreads
    exact hinv.arrive harr hthreads

/-- A step that swaps no status `serve` has loaded. -/
def inTime (s : System.State TunnelState Tid Op) (a : System.Action Tid TunnelAction Choice) :
    Prop :=
  lateSwap s a = false

instance : ∀ s a, Decidable (inTime s a) :=
  fun s a => inferInstanceAs (Decidable (lateSwap s a = false))

/-- A step of a goroutine after the load. -/
theorem settled_exec {t : Tid} {c : Choice} {op : Op} {ops rest : List Op} {s₁ : TunnelState}
    {start : Option (Tid × List Op)} (h : GaugeInv s) (hT : TunnelInv s)
    (hsettled : loaded s = true → ∀ status, balance s status = 0) (hok : inTime s (.run t c))
    (ht : s.threads t = op :: rest) (hex : exec s.shared t c op = some (s₁, ops, start))
    (hl : loaded ⟨s₁, Pool.spawn (Function.update s.threads t (ops ++ rest)) start⟩ = true)
    (status : ConnectionStatus) :
    balance ⟨s₁, Pool.spawn (Function.update s.threads t (ops ++ rest)) start⟩ status = 0 := by
  have hserve : Pool.spawn (Function.update s.threads t (ops ++ rest)) start .serve =
      Function.update s.threads t (ops ++ rest) .serve :=
    Pool.spawn_of_ne fun ops' => exec_start hex (Or.inl rfl) ops'
  have hmem : op ∈ s.threads t := by
    rw [ht]
    exact List.mem_cons_self
  rw [balance_exec hT ht hex]
  by_cases hs : t = .serve
  · subst hs
    rw [Function.update_self] at hserve
    rw [loaded_serve h ht hex hserve, Bool.or_eq_true] at hl
    by_cases hload : loaded s = true
    · -- all that is left to do is to settle the account
      have hexit : exiting (op :: rest) = true := by
        rw [loaded, h.running ht, Bool.false_or, ht] at hload
        exact hload
      have hmoves : op.moves s.shared status = 0 := by
        cases op <;> first | rfl | cases hexit
      rw [hsettled hload, hmoves]
      rfl
    · have hop := hl.resolve_right hload
      rw [h.unloaded (Bool.eq_false_iff.mpr hload)]
      cases op <;> first | cases hop; done | skip
      exact Int.add_right_neg (share s.shared status)
  · rw [Function.update_of_ne (Ne.symm hs)] at hserve
    rw [loaded_aside hT ht hs hex hserve] at hl
    have hclose := h.closes t hs op hmem
    have hmoves : op.moves s.shared status = 0 := by
      cases op with
      | swapStatus status' =>
          by_cases hd : t = .dial
          · subst hd
            unfold inTime lateSwap at hok
            rw [ht, hl] at hok
            cases hok
          · cases hT.outer t hs hd _ hmem
      | loadStatus => cases hclose
      | _ => rfl
    rw [hsettled hl, hmoves]
    rfl

theorem settled_reach (h : Reach tunnel.step inTime newTunnel s) :
    loaded s = true → ∀ status, balance s status = 0 := by
  refine Reach.invariant (fun s => loaded s = true → ∀ status, balance s status = 0)
    (fun hl => by cases hl) ?_ h
  intro s a s' hr hsettled hok hst
  have hinv := tunnel_gauge (System.reach_allowed hr)
  have hT := tunnel_inv (System.reach_allowed hr)
  rcases System.step_cases hst with ⟨t, c, o, rest, s₁, ops, rfl, ht, hex, rfl⟩ |
    ⟨t, c, o, rest, s₁, ops, t', ops', rfl, ht, hex, rfl⟩ | ⟨x, s₁, rfl, harr, rfl⟩ |
    ⟨x, s₁, t, ops, rfl, harr, ht, rfl⟩
  · exact settled_exec hinv hT hsettled hok ht hex
  · exact settled_exec hinv hT hsettled hok ht hex
  · intro hl status
    rw [(loaded_arrive hinv harr rfl).2.1] at hl
    rw [balance_arrive harr rfl, hsettled hl]
  · intro hl status
    rw [(loaded_arrive hinv harr ⟨ht, rfl⟩).2.1] at hl
    rw [balance_arrive harr ⟨ht, rfl⟩, hsettled hl]

/-- An `updateMetric` that has passed its check. -/
def Op.updating : Op → Bool
  | .swapStatus _ | .gaugeDec _ | .gaugeInc _ => true
  | _ => false

theorem owed_quiet {ops : List Op} (h : ∀ o ∈ ops, o.updating = false)
    (status : ConnectionStatus) : owed status ops = 0 := by
  induction ops with
  | nil => rfl
  | cons o ops ih =>
      have ho := h o List.mem_cons_self
      have hnone : o.owed status = 0 := by
        cases o <;> first | rfl | cases ho
      rw [owed_cons, hnone, ih fun o' ho' => h o' (List.mem_cons_of_mem _ ho')]
      rfl

/-- `closeMetric` has started, or the tunnel is done. -/
def closingMetric (s : System.State TunnelState Tid Op) : Bool :=
  loaded s || (s.threads .serve).any Op.loads

/-- In every run the gauge of a tunnel is one under its status until the metric
is closed. It is nothing once both goroutines have ended, in a run in which no
status is swapped after `closeMetric` has loaded it. -/
theorem connections_gauge_conserved (s : System.State TunnelState Tid Op) :
    (Reach tunnel.step anyStep newTunnel s → closingMetric s = false →
      (∀ t, ∀ o ∈ s.threads t, o.updating = false) →
      ∃ status, s.shared.gauge status = 1 ∧
        ∀ status', status' ≠ status → s.shared.gauge status' = 0) ∧
    (Reach tunnel.step inTime newTunnel s → s.shared.done = true → s.threads .dial = [] →
      s.threads .serve = [] → ∀ status, s.shared.gauge status = 0) := by
  refine ⟨fun h hopen hquiet => ?_, fun h hdone hdial hserve status => ?_⟩
  · have hl : loaded s = false := (Bool.or_eq_false_iff.mp hopen).1
    have hgauge : ∀ status, s.shared.gauge status = share s.shared status := by
      intro status
      have hb := (tunnel_gauge (System.reach_allowed h)).unloaded hl status
      rw [balance, owed_quiet (hquiet .dial), owed_quiet (hquiet .serve)] at hb
      omega
    refine ⟨s.shared.prevStatus, ?_, fun status' hne => ?_⟩
    · rw [hgauge, share, if_pos rfl]
    · rw [hgauge, share, if_neg (Ne.symm hne)]
  · have hl : loaded s = true := by
      rw [loaded, hdone]
      rfl
    have hzero := settled_reach h hl status
    rw [balance, hdial, hserve, owed_nil] at hzero
    omega

/-- `serve` ends while `dialContext` is between its check and its swap; with
`early`, `dialContext` is through with the metric before that. -/
def endRun (early : Bool) : List (System.Action Tid TunnelAction Choice) :=
  let swap := List.replicate 3 (.run .dial {})
  List.flatten
    [[.arrive (.dialContext 7 "tcp" "node:443"), .run .dial {}, .run .dial {}],
      if early then swap else [],
      .arrive .recvEnd :: List.replicate 5 (.run .serve {}),
      if early then [] else swap,
      [.run .dial {}, .run .dial { ok := false }, .run .dial {}, .run .dial {}, .run .dial {}]]

theorem connections_gauge_conserved_early :
    ∃ s, Reach tunnel.step inTime newTunnel s ∧ s.shared.done = true ∧
      s.shared.gauge .dialing = 0 := by
  obtain ⟨s, hs, hend⟩ : ∃ s, run tunnel.step newTunnel (endRun true) = some s ∧
      decide (s.shared.done = true ∧ s.threads .dial = [] ∧ s.threads .serve = []) = true :=
    run_any (by decide)
  obtain ⟨hdone, hdial, hserve⟩ := of_decide_eq_true hend
  have hreach : Reach tunnel.step inTime newTunnel s := reach_of_run hs (by decide)
  exact ⟨s, hreach, hdone, (connections_gauge_conserved s).2 hreach hdone hdial hserve .dialing⟩

/-- A tunnel that ended early leaves one connection too few and one too many
behind. -/
theorem connections_gauge_drifts :
    ¬ ∀ s, Reach tunnel.step anyStep newTunnel s → s.shared.done = true →
      s.threads .dial = [] → s.threads .serve = [] → ∀ status, s.shared.gauge status = 0 := by
  intro h
  obtain ⟨s, hs, hend⟩ : ∃ s, run tunnel.step newTunnel (endRun false) = some s ∧
      decide (s.shared.done = true ∧ s.threads .dial = [] ∧ s.threads .serve = [] ∧
        s.shared.gauge .created = -1 ∧ s.shared.gauge .dialing = 1) = true :=
    run_any (by decide)
  obtain ⟨hdone, hdial, hserve, -, hdialing⟩ := of_decide_eq_true hend
  have hzero := h s (reach_of_run_any hs) hdone hdial hserve .dialing
  omega

end Konnectivity.Client
