import Konnectivity.Proofs.Goroutines

/-!
# What a `CLOSE_REQ` does to the data before it

A payload goes from `Serve` through `dataCh` to `dataChannelToRemote` and from
there to the remote. `cleanFunc` closes `dataCh` and then the connection, and
does not wait for `dataChannelToRemote`, as it waits for `sendChannelToProxy`
on the way back. So a payload that is still on its way is lost, which is the
first result.

The second is that nothing else loses one. The bytes written, the bytes
`dataChannelToRemote` has in hand and those in `dataCh` are one stream, in that
order, which only grows at its end; if the connection is closed when the last
two are empty, all of it has been written.
-/

namespace Konnectivity.Agent.Client

open Lib

/-! ## The bytes -/

def Event.dataOf (k : ConnID) : Event → Bytes
  | .data k' b => if k' = k then b else []
  | _ => []

def Event.wroteTo (k : ConnID) : Event → Bytes
  | .wrote k' b => if k' = k then b else []
  | _ => []

/-- What the events say, oldest first. -/
def gathered (f : Event → Bytes) : List Event → Bytes
  | [] => []
  | e :: log => gathered f log ++ f e

/-- The bytes `Serve` received for the connection. -/
def received (k : ConnID) (log : List Event) : Bytes := gathered (Event.dataOf k) log

/-- The bytes that went to the remote. -/
def written (k : ConnID) (log : List Event) : Bytes := gathered (Event.wroteTo k) log

/-- What was received before the `CLOSE_REQ` is written in full and in order
before the connection is closed, unless a write failed or the remote ended the
connection. -/
def Drained (k : ConnID) (log : List Event) : Prop :=
  ∀ post pre mid old, log = post ++ Event.connClosed k :: pre →
    pre = mid ++ Event.closeReq k :: old →
    .writeFailed k ∉ pre → .remoteEnded k ∉ pre → received k old <+: written k pre

/-- Neither has a write failed nor the remote ended the connection. -/
def Intact (k : ConnID) (log : List Event) : Prop :=
  .writeFailed k ∉ log ∧ .remoteEnded k ∉ log

instance (k : ConnID) (log : List Event) : Decidable (Intact k log) :=
  inferInstanceAs (Decidable (Event.writeFailed k ∉ log ∧ Event.remoteEnded k ∉ log))

/-- `dataChannelToRemote` has these bytes in hand. -/
@[grind =]
def Op.inHand (k : ConnID) : Op → Bytes
  | .connWrite k' b => if k' = k then b else []
  | _ => []

/-- `Serve` has these bytes to put into `dataCh`. -/
@[grind =]
def Op.handing (k : ConnID) : Op → Bytes
  | .sendViaDataChannel k' b => if k' = k then b else []
  | _ => []

/-- The connection an operation closes. -/
def Op.closing : Op → Option ConnID
  | .connClose k _ => some k
  | _ => none

/-- The connection an operation puts a payload into the `dataCh` of. -/
def Op.putting : Op → Option ConnID
  | .sendViaDataChannel k _ => some k
  | _ => none

/-- After a `CLOSE_REQ`, the connection is closed when its `dataCh` is empty
and `dataChannelToRemote` has nothing in hand; and `Serve` puts nothing into a
`dataCh` that is closed. -/
def ClosesDrained (s : System.State ClientState Tid Op) :
    System.Action Tid ClientAction Choice → Prop
  | .arrive _ => True
  | .run t _ => ∀ o ∈ (s.threads t).head?,
      (∀ k ∈ o.closing, .closeReq k ∈ s.shared.log → Intact k s.shared.log →
        (s.shared.econn k).dataCh.buf = [] ∧
          (s.threads (.writer k)).flatMap (Op.inHand k) = []) ∧
      ∀ k ∈ o.putting, Intact k s.shared.log → (s.shared.econn k).dataCh.closed = false

instance (s : System.State ClientState Tid Op) :
    ∀ a : System.Action Tid ClientAction Choice, Decidable (ClosesDrained s a)
  | .arrive _ => isTrue trivial
  | .run t _ => inferInstanceAs (Decidable (∀ o ∈ (s.threads t).head?, _ ∧ _))

/-! ## A payload that is lost -/

/-- `DATA` and `CLOSE_REQ` arrive, and `Serve` closes the connection before
`dataChannelToRemote` gets to run. -/
def lostRun : List (System.Action Tid ClientAction Choice) :=
  let dialReq : Packet := .ofDialRequest { protocol := "tcp", address := "a:1", random := 7 }
  let data : Packet := .ofData { connectID := 1, error := "", data := [5] }
  List.flatten
    [[.arrive (.deliver dialReq)], List.replicate 3 (.run .serve {}),
      List.replicate 9 (.run (.dial 1) {}), [.arrive (.deliver data)],
      List.replicate 4 (.run .serve {}), [.arrive (.deliver (.newCloseRequest 1))],
      List.replicate 6 (.run .serve {}), List.replicate 3 (.run (.sender 1) {}),
      List.replicate 7 (.run .serve {})]

/-- The payload that came before the `CLOSE_REQ` is in `dataCh` when the
connection is closed. -/
theorem data_lost_on_close :
    ∃ s : System.State ClientState Tid Op,
      Reach client.step anyStep (newAgentClient 1 1 4) s ∧ ¬ Drained 1 s.shared.log := by
  obtain ⟨s, hs, hend⟩ : ∃ s : System.State ClientState Tid Op,
      run client.step (newAgentClient 1 1 4) lostRun = some s ∧
      decide (s.shared.log = [.connClosed 1, .deleted 1, .sent (closePkt 1 7), .cleaning 1,
        .closeReq 1,
        .data 1 [5], .sent (.ofDialResponse { error := "", connectID := 1, random := 7 }), .added 1,
        .dialed 1]) = true :=
    run_any (by decide)
  refine ⟨s, reach_of_run_any hs, fun hd => ?_⟩
  rw [of_decide_eq_true hend] at hd
  have hlost := hd [] _ [.deleted 1, .sent (closePkt 1 7), .cleaning 1] _ rfl rfl (by decide)
    (by decide)
  revert hlost
  decide

/-! ## One connection -/

/-- The connection the bytes of which an event is about. -/
@[grind =]
def Event.about : Event → Option ConnID
  | .data k _ | .closeReq k | .wrote k _ | .writeFailed k | .remoteEnded k | .connClosed k => some k
  | _ => none

theorem Event.quiet {e : Event} {k : ConnID} (h : e.about ≠ some k) :
    e.dataOf k = [] ∧ e.wroteTo k = [] ∧ e ≠ .closeReq k ∧ e ≠ .writeFailed k ∧ e ≠ .remoteEnded k ∧
      e ≠ .connClosed k := by
  cases e <;> simp_all [Event.about, Event.dataOf, Event.wroteTo]

section Streams

variable {k : ConnID} {e : Event} {log : List Event} {rest rest' pend pend' b : Bytes}

@[simp]
theorem received_cons : received k (e :: log) = received k log ++ e.dataOf k := rfl

@[simp]
theorem written_cons : written k (e :: log) = written k log ++ e.wroteTo k := rfl

theorem received_suffix (k : ConnID) (log : List Event) :
    ∀ mid : List Event, received k log <+: received k (mid ++ log)
  | [] => List.prefix_refl _
  | _ :: mid => (received_suffix k log mid).trans (List.prefix_append _ _)

/-- Nothing is lost so far, and the connection is open. -/
def Live (k : ConnID) (log : List Event) : Prop := Intact k log ∧ .connClosed k ∉ log

theorem Live.of_cons (h : Live k (e :: log)) : Live k log :=
  ⟨⟨fun hin => h.1.1 (List.mem_cons_of_mem _ hin), fun hin => h.1.2 (List.mem_cons_of_mem _ hin)⟩,
    fun hin => h.2 (List.mem_cons_of_mem _ hin)⟩

/-- `rest` is what comes after the bytes written, in hand or in `dataCh`, and
`pend` what `Serve` has still to put there. -/
structure StreamInv (k : ConnID) (log : List Event) (rest pend : Bytes) : Prop where
  account : Live k log → received k log = written k log ++ rest ++ pend
  closeReq : Live k log → ∀ mid old, log = mid ++ Event.closeReq k :: old →
    received k old <+: written k log ++ rest
  drained : Drained k log

/-- Once a byte may be lost or the connection is closed, only the past counts. -/
theorem StreamInv.over (h : Drained k log) (hover : ¬ Live k log) : StreamInv k log rest pend :=
  ⟨fun hl => absurd hl hover, fun hl => absurd hl hover, h⟩

/-- A new event other than the closing of the connection. -/
theorem Drained.cons (h : Drained k log) (he : e ≠ .connClosed k) : Drained k (e :: log) := by
  intro post pre mid old hlog hpre hw hr
  cases post with
  | nil =>
      injection hlog with h1 _
      exact absurd h1 he
  | cons e' post =>
      injection hlog with _ h2
      exact h post pre mid old h2 hpre hw hr

theorem StreamInv.quiet (h : StreamInv k log rest pend) (he : e.about ≠ some k) :
    StreamInv k (e :: log) rest pend := by
  obtain ⟨h1, h2, h3, -, -, h6⟩ := Event.quiet he
  refine ⟨fun hl => ?_, fun hl mid old hlog => ?_, h.drained.cons h6⟩
  · simpa [h1, h2] using h.account hl.of_cons
  · rw [written_cons, h2, List.append_nil]
    cases mid with
    | nil =>
        injection hlog with heq _
        exact absurd heq h3
    | cons e' mid =>
        injection hlog with _ hlog
        exact h.closeReq hl.of_cons mid old hlog

/-- `Serve` receives a payload. -/
theorem StreamInv.data (h : StreamInv k log rest []) : StreamInv k (.data k b :: log) rest b := by
  refine ⟨fun hl => ?_, fun hl mid old hlog => ?_, h.drained.cons (by simp)⟩
  · simp [h.account hl.of_cons, Event.dataOf, Event.wroteTo]
  · cases mid with
    | nil => cases hlog
    | cons e' mid =>
        injection hlog with _ hlog
        simpa [Event.wroteTo] using h.closeReq hl.of_cons mid old hlog

/-- `Serve` receives a `CLOSE_REQ`. -/
theorem StreamInv.close_req (h : StreamInv k log rest []) :
    StreamInv k (.closeReq k :: log) rest [] := by
  refine ⟨fun hl => ?_, fun hl mid old hlog => ?_, h.drained.cons (by simp)⟩
  · simp [h.account hl.of_cons, Event.dataOf, Event.wroteTo]
  · cases mid with
    | nil =>
        injection hlog with _ hlog
        subst hlog
        simp [h.account hl.of_cons, Event.wroteTo]
    | cons e' mid =>
        injection hlog with _ hlog
        simpa [Event.wroteTo] using h.closeReq hl.of_cons mid old hlog

/-- `Serve` puts a payload into `dataCh`. -/
theorem StreamInv.put (h : StreamInv k log rest pend) : StreamInv k log (rest ++ pend) [] := by
  refine ⟨fun hl => ?_, fun hl mid old hlog => ?_, h.drained⟩
  · rw [h.account hl, List.append_assoc, List.append_assoc, List.append_nil]
  · rw [← List.append_assoc]
    exact (h.closeReq hl mid old hlog).trans (List.prefix_append _ _)

/-- Bytes go to the remote. -/
theorem StreamInv.wrote (h : StreamInv k log (b ++ rest) pend) :
    StreamInv k (.wrote k b :: log) rest pend := by
  refine ⟨fun hl => ?_, fun hl mid old hlog => ?_, h.drained.cons (by simp)⟩
  · simp [h.account hl.of_cons, Event.dataOf, Event.wroteTo]
  · cases mid with
    | nil => cases hlog
    | cons e' mid =>
        injection hlog with _ hlog
        simpa [Event.wroteTo] using h.closeReq hl.of_cons mid old hlog

/-- The connection is closed. -/
theorem StreamInv.closed (h : StreamInv k log rest pend) (hc : .connClosed k ∉ log)
    (hempty : .closeReq k ∈ log → Intact k log → rest = []) :
    StreamInv k (.connClosed k :: log) rest' pend' := by
  refine .over (fun post pre mid old hlog hpre hw hr => ?_) fun hl => hl.2 List.mem_cons_self
  cases post with
  | nil =>
      injection hlog with _ hlog
      subst hlog
      have hreq : .closeReq k ∈ log := by
        rw [hpre]
        exact List.mem_append_right _ List.mem_cons_self
      have hpref := h.closeReq ⟨⟨hw, hr⟩, hc⟩ mid old hpre
      rwa [hempty hreq ⟨hw, hr⟩, List.append_nil] at hpref
  | cons e' post =>
      injection hlog with _ hlog
      exact h.drained post pre mid old hlog hpre hw hr

end Streams

/-! ## The agent -/

/-- The bytes in hand and in `dataCh`. -/
def rest (k : ConnID) (s : System.State ClientState Tid Op) : Bytes :=
  (s.threads (.writer k)).flatMap (Op.inHand k) ++ (s.shared.econn k).dataCh.buf.flatten

/-- The bytes `Serve` has still to put into `dataCh`. -/
def pend (k : ConnID) (s : System.State ClientState Tid Op) : Bytes :=
  (s.threads .serve).flatMap (Op.handing k)

structure Streams (k : ConnID) (s : System.State ClientState Tid Op) : Prop where
  stream : StreamInv k s.shared.log (rest k s) (pend k s)
  draining : .drainDataCh k ∈ s.threads (.writer k) → ¬ Live k s.shared.log
  flag : (s.shared.econn k).connClosed = true → .connClosed k ∈ s.shared.log
  unused : s.shared.nextConnID < k → received k s.shared.log = [] ∧ written k s.shared.log = []

/-- The operation has nothing to do with the bytes of the connection. -/
def Op.aside (k : ConnID) (o : Op) : Prop :=
  o.inHand k = [] ∧ o.handing k = [] ∧ o ≠ .drainDataCh k

/-- An operation that leaves the bytes of the connection alone. -/
structure Passive (k : ConnID) (s s₁ : ClientState) (op : Op) (ops : List Op) : Prop where
  log : s₁.log = s.log ∨ ∃ e, e.about ≠ some k ∧ s₁.log = e :: s.log
  buf : (s₁.econn k).dataCh.buf = (s.econn k).dataCh.buf
  flag : (s₁.econn k).connClosed = (s.econn k).connClosed
  op : op.aside k
  ops : ∀ o ∈ ops, o.aside k

section Steps

variable {s s₁ : ClientState} {pool : Tid → List Op} {t : Tid} {c : Choice} {op : Op}
  {ops : List Op} {start : Option (Tid × List Op)} {k : ConnID}

theorem exec_start_aside {t' : Tid} {ops' : List Op}
    (hex : exec s t c op = some (s₁, ops, some (t', ops'))) (k : ConnID) :
    ∀ o ∈ ops', o.aside k := by
  cases op with
  | serve pkt =>
      simp only [exec, servePacket] at hex
      repeat' split at hex
      all_goals cases hex
      simp [Op.aside, Op.inHand, Op.handing]
  | cleanupAll rest =>
      cases rest <;> simp only [exec] at hex <;> repeat' split at hex
      all_goals cases hex
  | _ =>
      simp only [exec, closeCh] at hex
      repeat' split at hex
      all_goals cases hex
      all_goals simp [Op.aside, Op.inHand, Op.handing]

theorem flatMap_step {f : Op → Bytes}
    (hstart : ∀ t' ops', start = some (t', ops') → ∀ o ∈ ops', f o = []) (x : Tid) :
    (Pool.spawn (Function.update pool t ops) start x).flatMap f =
      if x = t then ops.flatMap f else (pool x).flatMap f := by
  have hupdate : (Function.update pool t ops x).flatMap f =
      if x = t then ops.flatMap f else (pool x).flatMap f := by
    by_cases hx : x = t
    · subst hx
      rw [Function.update_self, if_pos rfl]
    · rw [Function.update_of_ne hx, if_neg hx]
  cases start with
  | none => exact hupdate
  | some st =>
      by_cases hx : x = st.1
      · subst hx
        rw [Pool.spawn, Function.update_self, List.flatMap_append, hupdate,
          List.flatMap_eq_nil_iff.mpr (hstart st.1 st.2 rfl), List.append_nil]
      · rw [Pool.spawn, Function.update_of_ne hx, hupdate]

theorem drainDataCh_step (hops : .drainDataCh k ∉ ops)
    (hstart : ∀ t' ops', start = some (t', ops') → ∀ o ∈ ops', o.aside k) {x : Tid}
    (h : .drainDataCh k ∈ Pool.spawn (Function.update pool t ops) start x) :
    .drainDataCh k ∈ pool x := by
  rcases Pool.mem_of_spawn h with hin | ⟨ops', hst, hin⟩
  · by_cases hx : x = t
    · subst hx
      rw [Function.update_self] at hin
      exact absurd hin hops
    · rwa [Function.update_of_ne hx] at hin
  · exact absurd rfl (hstart x ops' hst _ hin).2.2

theorem Passive.keeps (h : Passive k s s₁ op ops) (ht : pool t = [op])
    (hstart : ∀ t' ops', start = some (t', ops') → ∀ o ∈ ops', o.aside k)
    (hnext : s.nextConnID ≤ s₁.nextConnID) (hk : Streams k ⟨s, pool⟩) :
    Streams k ⟨s₁, Pool.spawn (Function.update pool t ops) start⟩ := by
  have hsame : ∀ {f : Op → Bytes}, (∀ o, o.aside k → f o = []) → ∀ x,
      (Pool.spawn (Function.update pool t ops) start x).flatMap f = (pool x).flatMap f := by
    intro f hf x
    rw [flatMap_step fun t' ops' hst o ho => hf o (hstart t' ops' hst o ho)]
    by_cases hx : x = t
    · subst hx
      rw [if_pos rfl, ht, List.flatMap_eq_nil_iff.mpr fun o ho => hf o (h.ops o ho)]
      simp [hf op h.op]
    · rw [if_neg hx]
  have hrest : rest k ⟨s₁, Pool.spawn (Function.update pool t ops) start⟩ = rest k ⟨s, pool⟩ := by
    show _ ++ (s₁.econn k).dataCh.buf.flatten = _ ++ (s.econn k).dataCh.buf.flatten
    rw [hsame fun o ho => ho.1, h.buf]
  have hpend : pend k ⟨s₁, Pool.spawn (Function.update pool t ops) start⟩ = pend k ⟨s, pool⟩ :=
    hsame (fun o ho => ho.2.1) _
  have hdrain : .drainDataCh k ∈ Pool.spawn (Function.update pool t ops) start (.writer k) →
      ¬ Live k s.log := fun hin =>
    hk.draining (drainDataCh_step (fun hin => (h.ops _ hin).2.2 rfl) hstart hin)
  rcases h.log with hlog | ⟨e, he, hlog⟩
  · refine ⟨?_, fun hin => ?_, fun hf => ?_, fun hlt => ?_⟩
    · rw [hrest, hpend]
      show StreamInv k s₁.log _ _
      rw [hlog]
      exact hk.stream
    · show ¬ Live k s₁.log
      rw [hlog]
      exact hdrain hin
    · show _ ∈ s₁.log
      rw [hlog]
      exact hk.flag (h.flag.symm.trans hf)
    · show received k s₁.log = [] ∧ written k s₁.log = []
      rw [hlog]
      exact hk.unused (Nat.lt_of_le_of_lt hnext hlt)
  · refine ⟨?_, fun hin => ?_, fun hf => ?_, fun hlt => ?_⟩
    · rw [hrest, hpend]
      show StreamInv k s₁.log _ _
      rw [hlog]
      exact hk.stream.quiet he
    · show ¬ Live k s₁.log
      rw [hlog]
      exact fun hl => hdrain hin hl.of_cons
    · show _ ∈ s₁.log
      rw [hlog]
      exact List.mem_cons_of_mem _ (hk.flag (h.flag.symm.trans hf))
    · show received k s₁.log = [] ∧ written k s₁.log = []
      obtain ⟨h1, h2⟩ := hk.unused (Nat.lt_of_le_of_lt hnext hlt)
      obtain ⟨h3, h4, -⟩ := Event.quiet he
      rw [hlog, received_cons, written_cons, h1, h2, h3, h4]
      exact ⟨rfl, rfl⟩

/-- The connection the bytes of which an operation moves or loses. -/
@[grind =]
def Op.moves : Op → Option ConnID
  | .sendViaDataChannel k _ | .connClose k _ | .connRead k | .dataChRecv k | .connWrite k _
  | .drainDataCh k => some k
  | _ => none

theorem aside_nil : ∀ o ∈ ([] : List Op), o.aside k := fun _ ho => absurd ho List.not_mem_nil

theorem aside_one {o : Op} (h : o.aside k) : ∀ o' ∈ [o], o'.aside k :=
  List.forall_mem_singleton.mpr h

theorem aside_of_moves {o : Op} (h : o.moves ≠ some k) : o.aside k := by
  cases o with
  | sendViaDataChannel k' b =>
      have hk : k' ≠ k := fun heq => h (congrArg some heq)
      exact ⟨rfl, if_neg hk, by simp⟩
  | connWrite k' b =>
      have hk : k' ≠ k := fun heq => h (congrArg some heq)
      exact ⟨if_neg hk, rfl, by simp⟩
  | drainDataCh k' => exact ⟨rfl, rfl, fun heq => h (congrArg some (Op.drainDataCh.inj heq))⟩
  | _ => exact ⟨rfl, rfl, by simp⟩

theorem aside_still {o : Op} (h : o.moves = none) : o.aside k :=
  aside_of_moves (by simp [h])

theorem SendCaller.returned_aside (k : ConnID) (caller : SendCaller) (ok : Bool) :
    ∀ o ∈ caller.returned ok, o.aside k := by
  cases caller <;> cases ok <;> simp [SendCaller.returned, Op.aside, Op.inHand, Op.handing]

theorem CleanCaller.returned_aside (k : ConnID) (caller : CleanCaller) :
    ∀ o ∈ caller.returned, o.aside k := by
  cases caller <;> simp [CleanCaller.returned, Op.aside, Op.inHand, Op.handing]

/-- A connection was written back with its `dataCh` as it was. -/
theorem setConn_passive {k' : ConnID} {e : EndpointConn}
    (h : k' = k → e.dataCh.buf = (s.econn k).dataCh.buf ∧ e.connClosed = (s.econn k).connClosed)
    (hop : op.aside k) (hops : ∀ o ∈ ops, o.aside k) : Passive k s (s.setConn k' e) op ops := by
  refine ⟨Or.inl rfl, ?_, ?_, hop, hops⟩
  · by_cases hk : k = k'
    · subst hk
      simp [(h rfl).1]
    · simp [hk]
  · by_cases hk : k = k'
    · subst hk
      simp [(h rfl).2]
    · simp [hk]

theorem record_passive {e : Event} (he : e.about ≠ some k) (hop : op.aside k)
    (hops : ∀ o ∈ ops, o.aside k) : Passive k s (s.record e) op ops :=
  ⟨Or.inr ⟨e, he, rfl⟩, rfl, rfl, hop, hops⟩

theorem exec_passive (hmoves : op.moves ≠ some k) (hserve : ∀ pkt, op ≠ .serve pkt)
    (hex : exec s t c op = some (s₁, ops, start)) : Passive k s s₁ op ops := by
  have hop : op.aside k := aside_of_moves hmoves
  cases op with
  | serve pkt => exact absurd rfl (hserve pkt)
  | sendReturn caller ok =>
      cases hex
      exact ⟨Or.inl rfl, rfl, rfl, hop, caller.returned_aside k ok⟩
  | onceDone k' caller =>
      cases hex
      exact setConn_passive (fun h => h ▸ ⟨rfl, rfl⟩) hop
        (caller.returned_aside k)
  | cleanup k' caller =>
      simp only [exec] at hex
      split at hex
      · cases hex
        exact ⟨Or.inl rfl, rfl, rfl, hop, caller.returned_aside k⟩
      · split at hex <;> cases hex
        exact setConn_passive (fun h => h ▸ ⟨rfl, rfl⟩) hop
          (aside_one (aside_still rfl))
  | cleanupAll rest =>
      cases rest <;> simp only [exec] at hex <;> repeat' split at hex
      all_goals cases hex
      all_goals exact ⟨Or.inl rfl, rfl, rfl, hop, aside_one (aside_still rfl)⟩
  | failSendDone k' dialed =>
      simp only [exec, closeCh] at hex
      split at hex <;> cases hex
      · exact ⟨Or.inl rfl, rfl, rfl, hop, aside_nil⟩
      · exact setConn_passive (fun h => h ▸ ⟨rfl, rfl⟩) hop
          (by cases dialed <;> exact aside_one (aside_still rfl))
  | netDial k' req =>
      simp only [exec] at hex
      split at hex <;> cases hex
      · exact ⟨Or.inl rfl, rfl, rfl, hop, aside_one (aside_still rfl)⟩
      · have hset : Passive k s (s.setConn k' { s.econn k' with dialed := true }) (.netDial k' req)
            [.addConn k'] :=
          setConn_passive (fun h => h ▸ ⟨rfl, rfl⟩) hop
            (aside_one (aside_still rfl))
        exact ⟨Or.inr ⟨.dialed k', by simp [Event.about], rfl⟩, hset.buf, hset.flag, hset.op,
          hset.ops⟩
  | closeDataCh k' caller =>
      simp only [exec, closeCh, GoChan.close] at hex
      split at hex
      · cases hex
        exact ⟨Or.inl rfl, rfl, rfl, hop, aside_nil⟩
      · next heq =>
          cases hex
          split at heq <;> cases heq
          exact setConn_passive (fun h => h ▸ ⟨rfl, rfl⟩) hop
            (aside_one (aside_still rfl))
  | sendViaDataChannel k' b =>
      have hk : k' ≠ k := fun h => hmoves (congrArg some h)
      simp only [exec] at hex
      split at hex <;> cases hex
      · exact ⟨Or.inl rfl, rfl, rfl, hop, aside_one (aside_still rfl)⟩
      · exact setConn_passive (fun h => absurd h hk) hop (aside_one (aside_still rfl))
  | connClose k' caller =>
      have hk : k' ≠ k := fun h => hmoves (congrArg some h)
      cases hex
      have hset : Passive k s (s.setConn k' { s.econn k' with connClosed := true })
          (.connClose k' caller) [.onceDone k' caller] :=
        setConn_passive (fun h => absurd h hk) hop
          (aside_one (aside_still rfl))
      exact ⟨Or.inr ⟨.connClosed k', by simp [Event.about, hk], rfl⟩, hset.buf, hset.flag, hset.op,
        hset.ops⟩
  | connRead k' =>
      have hk : k' ≠ k := fun h => hmoves (congrArg some h)
      simp only [exec] at hex
      split at hex
      · split at hex <;> cases hex
        exact record_passive (by simp [Event.about]) hop (aside_one (aside_still rfl))
      · cases hex
        split
        · exact ⟨Or.inl rfl, rfl, rfl, hop, aside_one (aside_still rfl)⟩
        · exact record_passive (by simp [Event.about, hk]) hop
            (aside_one (aside_still rfl))
  | dataChRecv k' =>
      have hk : k' ≠ k := fun h => hmoves (congrArg some h)
      simp only [exec] at hex
      split at hex <;> cases hex
      · exact ⟨Or.inl rfl, rfl, rfl, hop, aside_nil⟩
      · exact setConn_passive (fun h => absurd h hk) hop (aside_one (aside_of_moves hmoves))
  | connWrite k' b =>
      have hk : k' ≠ k := fun h => hmoves (congrArg some h)
      simp only [exec] at hex
      repeat' split at hex
      all_goals cases hex
      · exact ⟨Or.inl rfl, rfl, rfl, hop, aside_one (aside_of_moves hmoves)⟩
      all_goals refine record_passive ?_ hop (aside_one (aside_of_moves hmoves))
      all_goals simp [Event.about, hk]
  | drainDataCh k' =>
      have hk : k' ≠ k := fun h => hmoves (congrArg some h)
      simp only [exec] at hex
      split at hex <;> cases hex
      · exact ⟨Or.inl rfl, rfl, rfl, hop, aside_nil⟩
      · exact setConn_passive (fun h => absurd h hk) hop (aside_one (aside_of_moves hmoves))
  | _ =>
      simp only [exec, closeCh] at hex
      repeat' split at hex
      all_goals cases hex
      all_goals first
        | exact ⟨Or.inl rfl, rfl, rfl, hop, aside_nil⟩
        | exact ⟨Or.inl rfl, rfl, rfl, hop, aside_one ⟨rfl, rfl, by simp⟩⟩
        | exact setConn_passive (fun h => h ▸ ⟨rfl, rfl⟩) hop aside_nil
        | exact setConn_passive (fun h => h ▸ ⟨rfl, rfl⟩) hop (aside_one ⟨rfl, rfl, by simp⟩)
        | exact ⟨Or.inr ⟨_, by simp [Event.about], rfl⟩, rfl, rfl, hop,
          aside_one ⟨rfl, rfl, by simp⟩⟩

/-! ## The operations that move the bytes of a connection -/

/-- An operation of `dataChannelToRemote`. -/
theorem Streams.writer (hk : Streams k ⟨s, pool⟩)
    (hnext : s₁.nextConnID = s.nextConnID)
    (hflag : (s₁.econn k).connClosed = (s.econn k).connClosed) (hlog : s.log <:+ s₁.log)
    (hstream : StreamInv k s₁.log (ops.flatMap (Op.inHand k) ++ (s₁.econn k).dataCh.buf.flatten)
      (pend k ⟨s, pool⟩))
    (hdrain : .drainDataCh k ∈ ops → ¬ Live k s₁.log) (hmade : k ≤ s.nextConnID) :
    Streams k ⟨s₁, Pool.spawn (Function.update pool (.writer k) ops) none⟩ := by
  refine ⟨?_, fun hin => ?_, fun hf => ?_, fun hlt => ?_⟩
  · have hrest : rest k ⟨s₁, Pool.spawn (Function.update pool (.writer k) ops) none⟩ =
        ops.flatMap (Op.inHand k) ++ (s₁.econn k).dataCh.buf.flatten := by
      rw [rest, flatMap_step (by simp), if_pos rfl]
    have hpend : pend k ⟨s₁, Pool.spawn (Function.update pool (.writer k) ops) none⟩ =
        pend k ⟨s, pool⟩ := by
      rw [pend, flatMap_step (by simp), if_neg (by simp)]
      rfl
    rw [hrest, hpend]
    exact hstream
  · refine hdrain ?_
    simpa [Pool.spawn] using hin
  · exact hlog.subset (hk.flag (hflag.symm.trans hf))
  · exact absurd (show s₁.nextConnID < k from hlt) (by rw [hnext]; exact Nat.not_lt.mpr hmade)

theorem Streams.exec_writer (hk : Streams k ⟨s, pool⟩) (ht : pool (.writer k) = [op])
    (hkind : op = .dataChRecv k ∨ (∃ b, op = .connWrite k b) ∨ op = .drainDataCh k)
    (hmade : k ≤ s.nextConnID) (hex : exec s t c op = some (s₁, ops, start)) :
    start = none ∧ Streams k ⟨s₁, Pool.spawn (Function.update pool (.writer k) ops) none⟩ := by
  have hnow : rest k ⟨s, pool⟩ = op.inHand k ++ (s.econn k).dataCh.buf.flatten := by
    simp [rest, ht]
  have hstream := hk.stream
  rw [hnow] at hstream
  rcases hkind with rfl | ⟨b, rfl⟩ | rfl
  · simp only [exec] at hex
    split at hex
    · cases hex
    · cases hex
      exact ⟨rfl, hk.writer rfl rfl (List.suffix_refl _) hstream (by simp) hmade⟩
    · next b ch hrecv =>
        cases hex
        refine ⟨rfl, hk.writer rfl (by simp) (List.suffix_refl _) ?_ (by simp) hmade⟩
        have hbuf : (s.econn k).dataCh.buf = b :: ch.buf := by
          unfold GoChan.recv at hrecv
          repeat' split at hrecv
          all_goals cases hrecv
          assumption
        simpa [Op.inHand, hbuf] using hstream
  · simp only [exec] at hex
    split at hex
    · next hclosed =>
        cases hex
        have hover : ¬ Live k s.log := fun hl => hl.2 (hk.flag hclosed)
        exact ⟨rfl, hk.writer rfl rfl (List.suffix_refl _) (.over hstream.drained hover)
          (fun _ => hover) hmade⟩
    · split at hex
      · cases hex
        refine ⟨rfl, hk.writer rfl rfl (List.suffix_cons _ _) (.wrote ?_) (by simp) hmade⟩
        simpa [Op.inHand] using hstream
      · split at hex <;> cases hex
        refine ⟨rfl, hk.writer rfl rfl (List.suffix_cons _ _) (.wrote ?_) (by simp) hmade⟩
        simpa [Op.inHand, ← List.append_assoc, List.take_append_drop] using hstream
      · cases hex
        have hover : ¬ Live k (.writeFailed k :: s.log) := fun hl => hl.1.1 List.mem_cons_self
        exact ⟨rfl, hk.writer rfl rfl (List.suffix_cons _ _)
          (.over (hstream.drained.cons (by simp)) hover) (fun _ => hover) hmade⟩
  · have hover : ¬ Live k s.log := hk.draining (by simp [ht])
    simp only [exec] at hex
    split at hex
    · cases hex
    · cases hex
      exact ⟨rfl, hk.writer rfl rfl (List.suffix_refl _) (.over hstream.drained hover)
        (by simp) hmade⟩
    · cases hex
      exact ⟨rfl, hk.writer rfl (by simp) (List.suffix_refl _) (.over hstream.drained hover)
        (fun _ => hover) hmade⟩

/-- An operation of another goroutine. -/
theorem Streams.other (hk : Streams k ⟨s, pool⟩) (ht : t ≠ .writer k)
    (hstart : ∀ t' ops', start = some (t', ops') → ∀ o ∈ ops', o.aside k)
    (hops : .drainDataCh k ∉ ops) (hlog : s.log <:+ s₁.log)
    (hstream : StreamInv k s₁.log
      ((pool (.writer k)).flatMap (Op.inHand k) ++ (s₁.econn k).dataCh.buf.flatten)
      (if .serve = t then ops.flatMap (Op.handing k) else pend k ⟨s, pool⟩))
    (hflag : (s₁.econn k).connClosed = true → .connClosed k ∈ s₁.log)
    (hunused : s₁.nextConnID < k → received k s₁.log = [] ∧ written k s₁.log = []) :
    Streams k ⟨s₁, Pool.spawn (Function.update pool t ops) start⟩ := by
  refine ⟨?_, fun hin hl => ?_, hflag, hunused⟩
  · have hrest : rest k ⟨s₁, Pool.spawn (Function.update pool t ops) start⟩ =
        (pool (.writer k)).flatMap (Op.inHand k) ++ (s₁.econn k).dataCh.buf.flatten := by
      rw [rest, flatMap_step fun t' ops' hst o ho => (hstart t' ops' hst o ho).1,
        if_neg (Ne.symm ht)]
    have hpend : pend k ⟨s₁, Pool.spawn (Function.update pool t ops) start⟩ =
        if .serve = t then ops.flatMap (Op.handing k) else pend k ⟨s, pool⟩ := by
      rw [pend, flatMap_step fun t' ops' hst o ho => (hstart t' ops' hst o ho).2.1]
      rfl
    rw [hrest, hpend]
    exact hstream
  · refine hk.draining (drainDataCh_step hops hstart hin) ?_
    exact ⟨⟨fun hw => hl.1.1 (hlog.subset hw), fun hr => hl.1.2 (hlog.subset hr)⟩,
      fun hc => hl.2 (hlog.subset hc)⟩

/-- `Serve` puts a payload into `dataCh`. -/
theorem Streams.exec_put (hk : Streams k ⟨s, pool⟩) {b : Bytes}
    (ht : pool .serve = [.sendViaDataChannel k b])
    (hok : Intact k s.log → (s.econn k).dataCh.closed = false)
    (hex : exec s t c (.sendViaDataChannel k b) = some (s₁, ops, start)) :
    start = none ∧ Streams k ⟨s₁, Pool.spawn (Function.update pool .serve ops) none⟩ := by
  have hpend : pend k ⟨s, pool⟩ = b := by
    simp [pend, ht, Op.handing]
  have hstream := hk.stream
  rw [hpend] at hstream
  simp only [exec] at hex
  split at hex
  · cases hex
  · next hsend =>
      cases hex
      have hover : ¬ Live k s.log := by
        intro hl
        simp [GoChan.send, hok hl.1] at hsend
      exact ⟨rfl, hk.other (by simp) (by simp) (by simp) (List.suffix_refl _)
        (.over hstream.drained hover) hk.flag hk.unused⟩
  · next ch hsend =>
      cases hex
      have hbuf : ch.buf = (s.econn k).dataCh.buf ++ [b] := by
        unfold GoChan.send at hsend
        repeat' split at hsend
        all_goals cases hsend
        rfl
      refine ⟨rfl, hk.other (by simp) (by simp) (by simp) (List.suffix_refl _) ?_ ?_ hk.unused⟩
      · have hput := hstream.put
        simpa [rest, hbuf, Op.handing] using hput
      · simpa using hk.flag

/-- `cleanFunc` closes the connection. -/
theorem Streams.exec_close (hk : Streams k ⟨s, pool⟩) {caller : CleanCaller}
    (hopen : .connClosed k ∉ s.log)
    (hok : .closeReq k ∈ s.log → Intact k s.log → (s.econn k).dataCh.buf = [] ∧
      (pool (.writer k)).flatMap (Op.inHand k) = [])
    (hex : exec s (caller.tid k) c (.connClose k caller) = some (s₁, ops, start)) :
    start = none ∧ Streams k ⟨s₁, Pool.spawn (Function.update pool (caller.tid k) ops) none⟩ := by
  cases hex
  refine ⟨rfl, hk.other ?_ (by simp) (by simp) (List.suffix_cons _ _)
    (hk.stream.closed hopen ?_) ?_ ?_⟩
  · cases caller <;> simp [CleanCaller.tid]
  · intro hreq hi
    obtain ⟨h1, h2⟩ := hok hreq hi
    show _ ++ (s.econn k).dataCh.buf.flatten = []
    rw [h1]
    simpa using h2
  · exact fun _ => List.mem_cons_self
  · intro hlt
    obtain ⟨h1, h2⟩ := hk.unused hlt
    exact ⟨by simpa [Event.dataOf] using h1, by simpa [Event.wroteTo] using h2⟩

/-- `remoteToSendChannel` reads. -/
theorem Streams.exec_read (hk : Streams k ⟨s, pool⟩) (ht : pool (.reader k) = [.connRead k])
    (hex : exec s t c (.connRead k) = some (s₁, ops, start)) :
    start = none ∧ Streams k ⟨s₁, Pool.spawn (Function.update pool (.reader k) ops) none⟩ := by
  have hop : Op.aside k (.connRead k) := by simp [Op.aside, Op.inHand, Op.handing]
  simp only [exec] at hex
  split at hex
  · split at hex <;> cases hex
    refine ⟨rfl, (record_passive ?_ hop ?_).keeps ht (by simp) (Nat.le_refl _) hk⟩
    · simp [Event.about]
    · simp [Op.aside, Op.inHand, Op.handing]
  · cases hex
    refine ⟨rfl, ?_⟩
    split
    · refine Passive.keeps ⟨Or.inl rfl, rfl, rfl, hop, ?_⟩ ht (by simp) (Nat.le_refl _) hk
      simp [Op.aside, Op.inHand, Op.handing]
    · refine hk.other (by simp) (by simp) (by simp) (List.suffix_cons _ _)
        (.over (hk.stream.drained.cons (by simp)) fun hl => hl.1.2 List.mem_cons_self)
        (fun hf => List.mem_cons_of_mem _ (hk.flag hf)) fun hlt => ?_
      obtain ⟨h1, h2⟩ := hk.unused hlt
      exact ⟨by simpa [Event.dataOf] using h1, by simpa [Event.wroteTo] using h2⟩

/-- The `switch` of `Serve`. -/
theorem Streams.exec_packet (hk : Streams k ⟨s, pool⟩) {pkt : Packet}
    (ht : pool .serve = [.serve pkt])
    (hlisted : ∀ id k', s.connections.lookup id = some k' → k' ≤ s.nextConnID)
    (hidle : s.nextConnID < k → pool (.writer k) = [])
    (hex : exec s t c (.serve pkt) = some (s₁, ops, start)) :
    Streams k ⟨s₁, Pool.spawn (Function.update pool .serve ops) start⟩ := by
  have hop : Op.aside k (.serve pkt) := by simp [Op.aside, Op.inHand, Op.handing]
  have hstart := fun t' ops' (hst : start = some (t', ops')) =>
    exec_start_aside (hst ▸ hex) k
  have hpend : pend k ⟨s, pool⟩ = [] := by
    simp [pend, ht, Op.handing]
  have hstream := hk.stream
  rw [hpend] at hstream
  have hsame : ∀ {s₁ : ClientState} {ops : List Op}, s₁.log = s.log → s₁.econn = s.econn →
      s₁.nextConnID = s.nextConnID → (∀ o ∈ ops, o.aside k) →
      Streams k ⟨s₁, Pool.spawn (Function.update pool .serve ops) none⟩ := by
    intro s₁ ops h1 h2 h3 hops
    exact Passive.keeps ⟨Or.inl h1, by rw [h2], by rw [h2], hop, hops⟩ ht (by simp)
      (Nat.le_of_eq h3.symm) hk
  simp only [exec, servePacket, ClientState.get] at hex
  split at hex
  · split at hex <;> cases hex
    · exact hsame rfl rfl rfl (by simp)
    · by_cases hkk : k = s.nextConnID + 1
      · -- a new connection, which nothing was received for
        subst hkk
        have hlt : s.nextConnID < s.nextConnID + 1 := Nat.lt_succ_self _
        obtain ⟨h1, h2⟩ := hk.unused hlt
        refine hk.other (by simp) hstart (by simp) (List.suffix_refl _)
          ⟨fun _ => ?_, fun _ mid old hlog => ?_,
          hk.stream.drained⟩ (by simp) fun hlt' => absurd hlt' (Nat.lt_irrefl _)
        · show received _ s.log = _
          simp [hidle hlt, h1, h2, Op.handing]
        · have hold : received (s.nextConnID + 1) old = [] := by
            have hpre := received_suffix (s.nextConnID + 1)
                (.closeReq (s.nextConnID + 1) :: old) mid
            rw [← show s.log = _ from hlog, h1] at hpre
            simpa [Event.dataOf] using hpre
          rw [hold]
          exact List.nil_prefix
      · refine Passive.keeps (s := s) ⟨Or.inl rfl, ?_, ?_, hop, ?_⟩ ht hstart (Nat.le_succ _) hk
        · simp [hkk]
        · simp [hkk]
        · simp [Op.aside, Op.inHand, Op.handing]
  · split at hex
    · cases hex
      exact hsame rfl rfl rfl (by simp)
    · split at hex
      · cases hex
        exact hsame rfl rfl rfl (by simp [Op.aside, Op.inHand, Op.handing])
      · split at hex <;> cases hex
        · next k' hid =>
            by_cases hkk : k' = k
            · subst hkk
              refine hk.other (by simp) (by simp) (by simp) (List.suffix_cons _ _) ?_
                (fun hf => List.mem_cons_of_mem _ (hk.flag hf))
                fun hlt => absurd hlt (Nat.not_lt.mpr (hlisted _ _ hid))
              simpa [Op.handing, rest] using hstream.data
            · refine (record_passive ?_ hop ?_).keeps ht (by simp) (Nat.le_refl _) hk
              · simp [Event.about, hkk]
              · simp [Op.aside, Op.inHand, Op.handing, hkk]
        · exact hsame rfl rfl rfl (by simp [Op.aside, Op.inHand, Op.handing])
  · split at hex
    · cases hex
      exact hsame rfl rfl rfl (by simp)
    · split at hex <;> cases hex
      · next k' hid =>
          by_cases hkk : k' = k
          · subst hkk
            refine hk.other (by simp) (by simp) (by simp) (List.suffix_cons _ _) ?_
              (fun hf => List.mem_cons_of_mem _ (hk.flag hf))
              fun hlt => absurd hlt (Nat.not_lt.mpr (hlisted _ _ hid))
            simpa [Op.handing, rest] using hstream.close_req
          · refine (record_passive ?_ hop ?_).keeps ht (by simp) (Nat.le_refl _) hk
            · simp [Event.about, hkk]
            · simp [Op.aside, Op.inHand, Op.handing]
      · exact hsame rfl rfl rfl (by simp [Op.aside, Op.inHand, Op.handing])
  · cases hex
    exact hsame rfl rfl rfl (by simp [Op.aside, Op.inHand, Op.handing])

end Steps

/-- In every run in which connections are closed when nothing is on its way
any more, everything that came before a `CLOSE_REQ` is written. -/
theorem data_drained_on_close {xfrChannelSize fromServer toServer : Nat}
    {s : System.State ClientState Tid Op}
    (h : Reach client.step ClosesDrained (newAgentClient xfrChannelSize fromServer toServer) s)
    (k : ConnID) : Drained k s.shared.log := by
  have hall : ∀ k, Streams k s := by
    refine System.invariant_run (fun s => ∀ k, Streams k s) (fun k => ?_) ?_ ?_ h
    · refine ⟨⟨fun _ => ?_, fun _ mid old hlog => ?_, fun post pre mid old hlog => ?_⟩, ?_, ?_,
        fun _ => ?_⟩
      · simp [rest, pend, newAgentClient, Op.handing, received, written, gathered]
      · simp [newAgentClient] at hlog
      · simp [newAgentClient] at hlog
      · simp [newAgentClient]
      · simp [newAgentClient]
      · simp [newAgentClient, received, written, gathered]
    · intro s t c op rest s₁ ops start hr hinv _ ht hok hex k
      have hr' := System.reach_allowed hr
      have hshape := agent_shaped hr'
      obtain ⟨-, hagent, hholds⟩ := agent_invariant hr'
      obtain rfl := hshape.rest_nil ht
      have hmem : op ∈ s.threads t := by
        rw [ht]
        exact List.mem_cons_self
      have htid : op.tid = t := hshape.own t op hmem
      have hmade : t.conn ≤ s.shared.nextConnID := by
        by_contra hlt
        rw [unused_idle hr' (Nat.lt_of_not_le hlt)] at hmem
        cases hmem
      have hnext := (hagent.exec (fun x hx => ⟨t, op, hmem, hx⟩) (hholds t op hmem) hex).change.next
      rw [List.append_nil]
      obtain ⟨hclosing, hputting⟩ := hok op (by rw [ht]; rfl)
      by_cases hmoves : op.moves = some k
      · have hex' : exec s.shared t c op = some (s₁, ops, start) := hex
        cases op <;> simp only [Op.moves, reduceCtorEq, Option.some.injEq] at hmoves
        all_goals subst hmoves
        all_goals subst htid
        case sendViaDataChannel b =>
          obtain ⟨rfl, hk⟩ := (hinv _).exec_put ht (hputting _ rfl) hex'
          exact hk
        case connClose caller =>
          have hstage := (hholds _ _ hmem).1
          simp only [ConnView.stage, Prod.mk.injEq] at hstage
          obtain ⟨rfl, hk⟩ := (hinv _).exec_close (List.count_eq_zero.mp hstage.2.2.2.2)
            (hclosing _ rfl) hex'
          exact hk
        case connRead =>
          obtain ⟨rfl, hk⟩ := (hinv _).exec_read ht hex'
          exact hk
        case dataChRecv =>
          obtain ⟨rfl, hk⟩ := (hinv _).exec_writer ht (Or.inl rfl) hmade hex'
          exact hk
        case connWrite b =>
          obtain ⟨rfl, hk⟩ := (hinv _).exec_writer ht (Or.inr (Or.inl ⟨b, rfl⟩)) hmade hex'
          exact hk
        case drainDataCh =>
          obtain ⟨rfl, hk⟩ := (hinv _).exec_writer ht (Or.inr (Or.inr rfl)) hmade hex'
          exact hk
      · by_cases hserve : ∃ pkt, op = .serve pkt
        · obtain ⟨pkt, rfl⟩ := hserve
          obtain rfl : Tid.serve = t := htid
          have hex' : exec s.shared .serve c (.serve pkt) = some (s₁, ops, start) := hex
          exact (hinv k).exec_packet ht (fun id k' hid => hagent.listed_made hid)
            (fun hlt => unused_idle hr' hlt) hex'
        · have hpass := exec_passive hmoves (fun pkt heq => hserve ⟨pkt, heq⟩) hex
          exact hpass.keeps ht (fun t' ops' hst => exec_start_aside (hst ▸ hex) k) hnext (hinv k)
    · intro s a s₁ start threads hr hinv _ _ harr hthreads k
      have hk := hinv k
      have hsame : s₁.log = s.shared.log ∧ s₁.econn = s.shared.econn ∧
          s₁.nextConnID = s.shared.nextConnID ∧ ∀ t ops, start = some (t, ops) → t = .drain := by
        cases a <;> simp only [client, arrive] at harr <;> repeat' split at harr
        all_goals cases harr
        all_goals simp
      obtain ⟨h1, h2, h3, h4⟩ := hsame
      have hother : ∀ t, t ≠ .drain → threads t = s.threads t := by
        intro t ht
        cases start with
        | none => rw [show threads = s.threads from hthreads]
        | some st =>
            obtain ⟨-, rfl⟩ := hthreads
            exact Function.update_of_ne (by rw [h4 st.1 st.2 rfl]; exact ht) _ _
      have hwriter := hother (.writer k) (by simp)
      have hserve := hother .serve (by simp)
      refine ⟨?_, ?_, ?_, ?_⟩
      · simpa [rest, pend, h1, h2, hwriter, hserve] using hk.stream
      · simpa [h1, hwriter] using hk.draining
      · simpa [h1, h2] using hk.flag
      · simpa [h1, h3] using hk.unused
  exact (hall k).stream.drained

/-- The same packets, and `dataChannelToRemote` runs before `Serve` goes on. -/
def drainedRun : List (System.Action Tid ClientAction Choice) :=
  let dialReq : Packet := .ofDialRequest { protocol := "tcp", address := "a:1", random := 7 }
  let data : Packet := .ofData { connectID := 1, error := "", data := [5] }
  List.flatten
    [[.arrive (.deliver dialReq)], List.replicate 3 (.run .serve {}),
      List.replicate 9 (.run (.dial 1) {}), [.arrive (.deliver data)],
      List.replicate 4 (.run .serve {}), List.replicate 2 (.run (.writer 1) {}),
      [.arrive (.deliver (.newCloseRequest 1))], List.replicate 6 (.run .serve {}),
      List.replicate 3 (.run (.sender 1) {}), List.replicate 7 (.run .serve {})]

theorem data_drained_on_close_written :
    ∃ s : System.State ClientState Tid Op,
      Reach client.step ClosesDrained (newAgentClient 1 1 4) s ∧ .connClosed 1 ∈ s.shared.log ∧
      .data 1 [5] ∈ s.shared.log ∧ Drained 1 s.shared.log := by
  obtain ⟨s, hs, hend⟩ : ∃ s : System.State ClientState Tid Op,
      run client.step (newAgentClient 1 1 4) drainedRun = some s ∧
      decide (Event.connClosed 1 ∈ s.shared.log ∧ Event.data 1 [5] ∈ s.shared.log) = true :=
    run_any (by decide)
  obtain ⟨hclosed, hdata⟩ := of_decide_eq_true hend
  have hr : Reach client.step ClosesDrained (newAgentClient 1 1 4) s :=
    reach_of_run hs (by decide)
  exact ⟨s, hr, hclosed, hdata, data_drained_on_close hr 1⟩

end Konnectivity.Agent.Client
