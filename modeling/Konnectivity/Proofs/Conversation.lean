import Konnectivity.Proofs.Goroutines

/-!
# What the agent says about a connection

The packets of a connection come from three goroutines: the `DIAL_RSP` from the
one that dials, the `DATA` from `sendChannelToProxy`, the `CLOSE_RSP` from
whoever runs `cleanFunc`. They all go through `Client.Send`, and the server
tells them apart by the `connID` alone.

What keeps them in order are the channels of the connection. Who sends the
`DIAL_RSP` has still to close `dialDone`, who sends `DATA` has still to close
`sendDone`, and `cleanFunc` waits for both. So the agent says of a connection
one `DIAL_RSP`, then `DATA`, then one `CLOSE_RSP`, and any of them may be
missing but the `DIAL_RSP` before `DATA`. The answers of `Serve` to packets for
connections it does not know carry an error and are not counted.

The `connID` wraps, so all of this is about the first `2 ^ 64` connections.
-/

namespace Konnectivity.Agent.Client

open Lib

/-! ## The packets of a connection -/

/-- A packet that the goroutines of the connection send. -/
def ConnID.owns (k : ConnID) (pkt : Packet) : Bool :=
  match pkt.payload with
  | some (.dialResponse m) => m.connectID == k.wire && m.error == ""
  | some (.data m) => m.connectID == k.wire
  | some (.closeResponse m) => m.connectID == k.wire && m.error == ""
  | _ => false

def Event.sentFor (k : ConnID) : Event → List Packet
  | .sent pkt => if k.owns pkt then [pkt] else []
  | _ => []

/-- The packets of the connection that the stream took, oldest first. -/
def packets (k : ConnID) (log : List Event) : List Packet := log.reverse.flatMap (Event.sentFor k)

def Event.readFrom (k : ConnID) : Event → List Bytes
  | .read k' b => if k' = k then [b] else []
  | _ => []

/-- What was read from the remote, read by read, oldest first. -/
def chunks (k : ConnID) (log : List Event) : List Bytes := log.reverse.flatMap (Event.readFrom k)

def dialRsp (k : ConnID) (random : DialID) : Packet :=
  .ofDialResponse { error := "", connectID := k.wire, random := random }

def dataPkt (k : ConnID) (b : Bytes) : Packet :=
  .ofData { connectID := k.wire, error := "", data := b }

/-- The packets of a connection, with or without a `DIAL_RSP` and a `CLOSE_RSP`. -/
def transcript (k : ConnID) (random : DialID) (opened : Bool) (data : List Bytes) (closed : Bool) :
    List Packet :=
  (if opened then [dialRsp k random] else []) ++ data.map (dataPkt k) ++
    (if closed then [closePkt k random] else [])

@[simp]
theorem packets_cons (k : ConnID) (e : Event) (log : List Event) :
    packets k (e :: log) = packets k log ++ e.sentFor k := by
  simp [packets]

@[simp]
theorem chunks_cons (k : ConnID) (e : Event) (log : List Event) :
    chunks k (e :: log) = chunks k log ++ e.readFrom k := by
  simp [chunks]

section Wire

variable {k k' : ConnID}

theorem ConnID.wire_inj (hk : k < 2 ^ 64) (hk' : k' < 2 ^ 64) (h : k.wire = k'.wire) : k = k' := by
  have hmod := congrArg (fun x : Int64 => x.toBitVec.toNat) h
  simp only [ConnID.wire, Int64.toBitVec_ofNat', BitVec.toNat_ofNat] at hmod
  rwa [Nat.mod_eq_of_lt hk, Nat.mod_eq_of_lt hk'] at hmod

theorem ConnID.wire_ne_zero (hk : k < 2 ^ 64) (h : 0 < k) : k.wire ≠ 0 := by
  intro hzero
  have hk0 : k = 0 := ConnID.wire_inj hk (by decide) hzero
  exact Nat.ne_of_gt h hk0

end Wire

section Transcript

variable {k : ConnID} {random : DialID} {opened closed : Bool} {data : List Bytes} {b : Bytes}

theorem closePkt_eq (hw : k.wire ≠ 0) :
    closePkt k random = .ofCloseResponse { connectID := k.wire, error := "" } := by
  simp [closePkt, hw]

theorem dialRsp_mem_transcript (hw : k.wire ≠ 0) :
    dialRsp k random ∈ transcript k random opened data closed ↔ opened = true := by
  rw [transcript, closePkt_eq hw]
  cases opened <;> cases closed <;>
    simp [dialRsp, dataPkt, Packet.ofDialResponse, Packet.ofData, Packet.ofCloseResponse]

theorem closePkt_mem_transcript (hw : k.wire ≠ 0) :
    closePkt k random ∈ transcript k random opened data closed ↔ closed = true := by
  rw [transcript, closePkt_eq hw]
  cases opened <;> cases closed <;>
    simp [dialRsp, dataPkt, Packet.ofDialResponse, Packet.ofData, Packet.ofCloseResponse]

theorem transcript_nil (h : transcript k random opened data closed = []) :
    opened = false ∧ data = [] ∧ closed = false := by
  cases opened <;> cases closed <;> simp_all [transcript]

theorem transcript_data (b : Bytes) : transcript k random opened data false ++ [dataPkt k b] =
    transcript k random opened (data ++ [b]) false := by
  simp [transcript]

theorem transcript_close : transcript k random opened data false ++ [closePkt k random] =
    transcript k random opened data true := by
  simp [transcript]

theorem owns_dialRsp : k.owns (dialRsp k random) = true := by
  simp [ConnID.owns, dialRsp, Packet.ofDialResponse]

theorem owns_dataPkt : k.owns (dataPkt k b) = true := by
  simp [ConnID.owns, dataPkt, Packet.ofData]

theorem owns_closePkt (hw : k.wire ≠ 0) : k.owns (closePkt k random) = true := by
  rw [closePkt_eq hw]
  simp [ConnID.owns, Packet.ofCloseResponse]

end Transcript

/-! ## What the goroutines know -/

/-- Nothing was sent for the connection. -/
def Silent (s : ClientState) (k : ConnID) : Prop := 0 < k → packets k s.log = []

/-- The `DIAL_RSP` of the connection was sent. -/
def Opened (s : ClientState) (k : ConnID) : Prop :=
  0 < k → dialRsp k (s.econn k).random ∈ packets k s.log

/-- The `CLOSE_RSP` of the connection was not sent. -/
def Unclosed (s : ClientState) (k : ConnID) : Prop :=
  0 < k → closePkt k (s.econn k).random ∉ packets k s.log

/-- The packet that the caller of `Client.Send` sends. -/
def SendCaller.Says (s : ClientState) (pkt : Packet) : SendCaller → Prop
  | .dialFailed _ =>
      ∃ err random, pkt = .ofDialResponse { error := err, connectID := 0, random := random }
  | .dialOk k => pkt = dialRsp k (s.econn k).random
  | .cleanup k _ => pkt = closePkt k (s.econn k).random
  | .data k => ∃ b, pkt = dataPkt k b
  | .serve => ∃ id, pkt = unrecognized id ∨ pkt = unknown id
  | .drain => pkt = drainPkt

/-- What it knows before the packet is sent. -/
def SendCaller.Ready (s : ClientState) : SendCaller → Prop
  | .dialFailed k | .dialOk k => Silent s k
  | .cleanup k _ => Unclosed s k ∧ (s.econn k).dialDone.closed = true ∧
      (s.econn k).sendDone.closed = true
  | .data k => Opened s k
  | .serve | .drain => True

/-- What it knows when `Client.Send` returns. -/
def SendCaller.Knows (s : ClientState) : SendCaller → Bool → Prop
  | .dialFailed k, _ | .dialOk k, false => Silent s k
  | .dialOk k, true | .data k, true => Opened s k
  | _, _ => True

def Op.Knows (s : ClientState) : Op → Prop
  | .send pkt caller | .streamSend pkt caller _ => caller.Says s pkt ∧ caller.Ready s
  | .removeClient caller => caller.Knows s false
  | .sendReturn caller ok => caller.Knows s ok
  | .netDial k _ | .addConn k | .failSendDone k _ | .discardSendCh k => Silent s k
  | .startReader k | .startSender k | .connRead k | .sendChSend k _ | .sendChRecv k => Opened s k
  | .waitDialDone k _ | .closeSendCh k _ | .waitSendDone k _ => Unclosed s k
  | _ => True

/-- The packets of one connection so far. -/
structure Said (s : ClientState) (k : ConnID) : Prop where
  unused : s.nextConnID < k → packets k s.log = [] ∧ chunks k s.log = [] ∧ .remoteEnded k ∉ s.log
  shape : ∃ opened data closed,
    packets k s.log = transcript k (s.econn k).random opened data closed ∧
    (opened = false → data = [] ∧ chunks k s.log = [] ∧ .remoteEnded k ∉ s.log) ∧
    (closed = true → (s.econn k).dialDone.closed = true ∧ (s.econn k).sendDone.closed = true ∧
      (s.econn k).onceEntered = true)

/-! ## Steps -/

section Steps

variable {s s₁ : ClientState} {t : Tid} {c : Choice} {op o : Op} {ops : List Op}
  {start : Option (Tid × List Op)} {k : ConnID} {H : ConnID × Right → Prop}

/-- Only the stream's `Send` adds to what the agent has said. -/
theorem exec_packets (hex : exec s t c op = some (s₁, ops, start)) :
    (∃ pkt caller begunClosed, op = .streamSend pkt caller begunClosed ∧
      ops = [.sendReturn caller true] ∧ start = none ∧ s₁.log = .sent pkt :: s.log ∧
      s₁.econn = s.econn ∧ s₁.nextConnID = s.nextConnID) ∨
    ∀ k, packets k s₁.log = packets k s.log := by
  cases op with
  | streamSend pkt caller begunClosed =>
      simp only [exec] at hex
      repeat' split at hex
      all_goals cases hex
      · exact Or.inl ⟨pkt, caller, begunClosed, rfl, rfl, rfl, rfl, rfl, rfl⟩
      · exact Or.inr fun _ => rfl
      · exact Or.inr fun _ => rfl
  | serve pkt =>
      refine Or.inr fun k => ?_
      simp only [exec, servePacket] at hex
      repeat' split at hex
      all_goals cases hex
      all_goals simp [Event.sentFor]
  | cleanupAll rest =>
      refine Or.inr fun k => ?_
      cases rest <;> simp only [exec] at hex <;> repeat' split at hex
      all_goals cases hex
      all_goals rfl
  | _ =>
      refine Or.inr fun k => ?_
      simp only [exec, closeCh] at hex
      repeat' split at hex
      all_goals cases hex
      all_goals first
        | rfl
        | simp [Event.sentFor]

/-- Only a read adds to what was read. -/
theorem exec_chunks (hex : exec s t c op = some (s₁, ops, start)) :
    (∃ k b, op = .connRead k ∧ ops = [.sendChSend k b] ∧ start = none ∧
      s₁ = s.record (.read k b)) ∨
    ∀ k, chunks k s₁.log = chunks k s.log := by
  cases op with
  | connRead k =>
      simp only [exec] at hex
      repeat' split at hex
      all_goals cases hex
      · exact Or.inl ⟨k, _, rfl, rfl, rfl, rfl⟩
      · exact Or.inr fun _ => rfl
      · exact Or.inr fun k' => by simp [Event.readFrom]
  | serve pkt =>
      refine Or.inr fun k => ?_
      simp only [exec, servePacket] at hex
      repeat' split at hex
      all_goals cases hex
      all_goals simp [Event.readFrom]
  | cleanupAll rest =>
      refine Or.inr fun k => ?_
      cases rest <;> simp only [exec] at hex <;> repeat' split at hex
      all_goals cases hex
      all_goals rfl
  | _ =>
      refine Or.inr fun k => ?_
      simp only [exec, closeCh] at hex
      repeat' split at hex
      all_goals cases hex
      all_goals first
        | rfl
        | simp [Event.readFrom]

/-- The remote ends a connection when it is read from. -/
theorem exec_ended (hex : exec s t c op = some (s₁, ops, start)) :
    .remoteEnded k ∈ s₁.log → .remoteEnded k ∈ s.log ∨ op = .connRead k := by
  cases op with
  | connRead k' =>
      simp only [exec] at hex
      repeat' split at hex
      all_goals cases hex
      · simpa using Or.inl
      · exact Or.inl
      · intro hin
        rcases List.mem_cons.mp hin with heq | hin
        · injection heq with heq
          rw [heq]
          exact Or.inr rfl
        · exact Or.inl hin
  | serve pkt =>
      simp only [exec, servePacket] at hex
      repeat' split at hex
      all_goals cases hex
      all_goals simp
  | cleanupAll rest =>
      cases rest <;> simp only [exec] at hex <;> repeat' split at hex
      all_goals cases hex
      all_goals simp
  | _ =>
      simp only [exec, closeCh] at hex
      repeat' split at hex
      all_goals cases hex
      all_goals simp

/-- What no operation takes back from a connection that was made. -/
structure Onward (e e₁ : EndpointConn) : Prop where
  random : e₁.random = e.random
  dialDone : e.dialDone.closed = true → e₁.dialDone.closed = true
  sendDone : e.sendDone.closed = true → e₁.sendDone.closed = true
  sendCh : e.sendCh.closed = true → e₁.sendCh.closed = true
  entered : e.onceEntered = true → e₁.onceEntered = true

theorem Onward.refl (e : EndpointConn) : Onward e e := ⟨rfl, id, id, id, id⟩

theorem Onward.setConn {e : EndpointConn} {k' : ConnID} (h : Onward (s.econn k') e) :
    Onward (s.econn k) ((s.setConn k' e).econn k) := by
  by_cases hk : k = k'
  · subst hk
    simpa using h
  · simp only [ClientState.setConn_econn, Function.update_of_ne hk]
    exact .refl _

theorem closeCh_onward {α : Type} {ch : GoChan α} {set : GoChan α → EndpointConn} {k' : ConnID}
    {ops' : List Op} (h : Onward (s.econn k') (set { ch with closed := true }))
    (hex : closeCh s k' ch set ops' = some (s₁, ops, start)) : Onward (s.econn k) (s₁.econn k) := by
  unfold closeCh GoChan.close at hex
  split at hex
  · cases hex
    exact .refl _
  · next hclose =>
      cases hex
      split at hclose <;> cases hclose
      exact h.setConn

theorem exec_onward (hk : k ≤ s.nextConnID) (hex : exec s t c op = some (s₁, ops, start)) :
    Onward (s.econn k) (s₁.econn k) := by
  cases op with
  | serve pkt =>
      simp only [exec, servePacket] at hex
      repeat' split at hex
      all_goals cases hex
      all_goals first
        | exact .refl _
        | skip
      have hne : k ≠ s.nextConnID + 1 := Nat.ne_of_lt (Nat.lt_succ_of_le hk)
      simp only [ClientState.setConn_econn, Function.update_of_ne hne]
      exact .refl _
  | cleanupAll rest =>
      cases rest <;> simp only [exec] at hex <;> repeat' split at hex
      all_goals cases hex
      all_goals exact .refl _
  | failSendDone k' dialed => exact closeCh_onward ⟨rfl, id, fun _ => rfl, id, id⟩ hex
  | closeDialDone k' => exact closeCh_onward ⟨rfl, fun _ => rfl, id, id, id⟩ hex
  | closeSendCh k' caller => exact closeCh_onward ⟨rfl, id, id, fun _ => rfl, id⟩ hex
  | closeDataCh k' caller => exact closeCh_onward ⟨rfl, id, id, id, id⟩ hex
  | closeSendDone k' => exact closeCh_onward ⟨rfl, id, fun _ => rfl, id, id⟩ hex
  | _ =>
      simp only [exec] at hex
      repeat' split at hex
      all_goals cases hex
      all_goals first
        | exact .refl _
        | exact Onward.setConn ⟨rfl, id, id, id, id⟩
        | exact Onward.setConn ⟨rfl, id, id, id, fun _ => rfl⟩
        | exact Onward.setConn ⟨rfl, id, id, (GoChan.send_closed ‹_›).trans, id⟩
        | exact Onward.setConn ⟨rfl, id, id, (GoChan.recv_closed ‹_›).trans, id⟩

/-- What the goroutines know outlives the operations of others. -/
structure Calm (s s₁ : ClientState) (tok : List (ConnID × Right)) : Prop where
  onward : ∀ k r, (k, r) ∈ tok → Onward (s.econn k) (s₁.econn k)
  grows : ∀ k, packets k s.log <+: packets k s₁.log
  silent : ∀ k, (k, .dial) ∈ tok → Silent s k → Silent s₁ k
  unclosed : ∀ k, (k, .clean) ∈ tok → Unclosed s k → Unclosed s₁ k

section Calm

variable {tok : List (ConnID × Right)}

theorem Calm.opened (h : Calm s s₁ tok) {r : Right} (hk : (k, r) ∈ tok) (ho : Opened s k) :
    Opened s₁ k := by
  intro hpos
  rw [(h.onward k r hk).random]
  exact (h.grows k).subset (ho hpos)

theorem Calm.ready {caller : SendCaller} (h : Calm s s₁ caller.tokens) (hr : caller.Ready s) :
    caller.Ready s₁ := by
  cases caller with
  | dialFailed k => exact h.silent k (by simp [SendCaller.tokens]) hr
  | dialOk k => exact h.silent k (by simp [SendCaller.tokens]) hr
  | cleanup k caller =>
      have hclean : (k, Right.clean) ∈ (SendCaller.cleanup k caller).tokens := List.mem_cons_self
      obtain ⟨h1, h2, h3⟩ := hr
      exact ⟨h.unclosed k hclean h1, (h.onward k _ hclean).dialDone h2,
        (h.onward k _ hclean).sendDone h3⟩
  | data k => exact h.opened List.mem_cons_self hr
  | serve => trivial
  | drain => trivial

theorem Calm.said {caller : SendCaller} {pkt : Packet} (h : Calm s s₁ caller.tokens)
    (hs : caller.Says s pkt) : caller.Says s₁ pkt := by
  cases caller with
  | dialOk k =>
      show pkt = dialRsp k (s₁.econn k).random
      rw [(h.onward k .dial (by simp [SendCaller.tokens])).random]
      exact hs
  | cleanup k caller =>
      show pkt = closePkt k (s₁.econn k).random
      rw [(h.onward k .clean List.mem_cons_self).random]
      exact hs
  | dialFailed k => exact hs
  | data k => exact hs
  | serve => exact hs
  | drain => exact hs

theorem Calm.returned {caller : SendCaller} {ok : Bool} (h : Calm s s₁ caller.tokens)
    (hk : caller.Knows s ok) : caller.Knows s₁ ok := by
  cases caller with
  | dialFailed k => exact h.silent k (by simp [SendCaller.tokens]) hk
  | dialOk k =>
      cases ok with
      | false => exact h.silent k (by simp [SendCaller.tokens]) hk
      | true => exact h.opened (r := .dial) (by simp [SendCaller.tokens]) hk
  | data k =>
      cases ok with
      | false => trivial
      | true => exact h.opened List.mem_cons_self hk
  | cleanup k caller => trivial
  | serve => trivial
  | drain => trivial

theorem Calm.knows (h : Calm s s₁ o.tokens) (hk : o.Knows s) : o.Knows s₁ := by
  cases o with
  | send pkt caller => exact ⟨Calm.said h hk.1, Calm.ready h hk.2⟩
  | streamSend pkt caller _ => exact ⟨Calm.said h hk.1, Calm.ready h hk.2⟩
  | removeClient caller => exact Calm.returned h hk
  | sendReturn caller ok => exact Calm.returned h hk
  | netDial k _ => exact h.silent k List.mem_cons_self hk
  | addConn k => exact h.silent k List.mem_cons_self hk
  | failSendDone k dialed =>
      cases dialed <;> exact h.silent k List.mem_cons_self hk
  | discardSendCh k => exact h.silent k List.mem_cons_self hk
  | startReader k => exact h.opened (r := .dial) List.mem_cons_self hk
  | startSender k => exact h.opened (r := .dial) List.mem_cons_self hk
  | connRead k => exact h.opened (r := .resp) List.mem_cons_self hk
  | sendChSend k _ => exact h.opened (r := .resp) List.mem_cons_self hk
  | sendChRecv k => exact h.opened (r := .send) List.mem_cons_self hk
  | waitDialDone k _ => exact h.unclosed k List.mem_cons_self hk
  | closeSendCh k _ => exact h.unclosed k List.mem_cons_self hk
  | waitSendDone k _ => exact h.unclosed k List.mem_cons_self hk
  | _ => trivial

/-- An operation that says nothing. -/
theorem Calm.of_same (hon : ∀ k r, (k, r) ∈ tok → Onward (s.econn k) (s₁.econn k))
    (hsame : ∀ k, packets k s₁.log = packets k s.log) : Calm s s₁ tok := by
  refine ⟨hon, fun k => ⟨[], ?_⟩, fun k _ hk hpos => ?_, fun k htok hk hpos => ?_⟩
  · rw [List.append_nil, hsame]
  · rw [hsame]
    exact hk hpos
  · rw [hsame, (hon k _ htok).random]
    exact hk hpos

end Calm

/-- A packet of the connection is sent by one of its goroutines. -/
theorem SendCaller.Says.owner {caller : SendCaller} {pkt : Packet} (h : caller.Says s pkt)
    (hpos : 0 < k) (hk : k < 2 ^ 64) (hmade : ∀ x ∈ caller.tokens, x.1 < 2 ^ 64)
    (ho : k.owns pkt = true) :
    caller = .dialOk k ∨ caller = .data k ∨ ∃ by', caller = .cleanup k by' := by
  have hw := ConnID.wire_ne_zero hk hpos
  cases caller with
  | dialFailed k' =>
      obtain ⟨err, random, rfl⟩ := h
      simp only [ConnID.owns, Packet.ofDialResponse, Bool.and_eq_true, beq_iff_eq] at ho
      exact absurd ho.1.symm hw
  | dialOk k' =>
      rw [show pkt = _ from h] at ho
      simp only [ConnID.owns, dialRsp, Packet.ofDialResponse, Bool.and_eq_true, beq_iff_eq] at ho
      obtain rfl : k' = k := ConnID.wire_inj (hmade (k', .dial) List.mem_cons_self) hk ho.1
      exact Or.inl rfl
  | cleanup k' by' =>
      rw [show pkt = _ from h] at ho
      by_cases hw' : k'.wire = 0
      · simp [ConnID.owns, closePkt, hw', Packet.ofCloseDial] at ho
      · rw [closePkt_eq hw'] at ho
        simp only [ConnID.owns, Packet.ofCloseResponse, Bool.and_eq_true, beq_iff_eq] at ho
        obtain rfl : k' = k := ConnID.wire_inj (hmade (k', .clean) List.mem_cons_self) hk ho.1
        exact Or.inr (Or.inr ⟨by', rfl⟩)
  | data k' =>
      obtain ⟨b, rfl⟩ := h
      simp only [ConnID.owns, dataPkt, Packet.ofData, beq_iff_eq] at ho
      obtain rfl : k' = k := ConnID.wire_inj (hmade (k', .send) List.mem_cons_self) hk ho
      exact Or.inr (Or.inl rfl)
  | serve =>
      obtain ⟨id, rfl | rfl⟩ := h <;>
        simp [ConnID.owns, unrecognized, unknown, Packet.ofCloseResponse] at ho
  | drain =>
      rw [show pkt = _ from h] at ho
      simp [ConnID.owns, drainPkt] at ho

/-! ### One connection -/

theorem Said.onward (h : Said s k) (hp : packets k s₁.log = packets k s.log)
    (hc : chunks k s₁.log = chunks k s.log) (he : .remoteEnded k ∈ s₁.log → .remoteEnded k ∈ s.log)
    (hnext : s.nextConnID ≤ s₁.nextConnID)
    (hon : k ≤ s.nextConnID → Onward (s.econn k) (s₁.econn k)) : Said s₁ k := by
  refine ⟨fun hlt => ?_, ?_⟩
  · rw [hp, hc]
    obtain ⟨h1, h2, h3⟩ := h.unused (Nat.lt_of_le_of_lt hnext hlt)
    exact ⟨h1, h2, fun hin => h3 (he hin)⟩
  · by_cases hk : k ≤ s.nextConnID
    · obtain ⟨opened, data, closed, hshape, hopened, hclosed⟩ := h.shape
      have hon := hon hk
      refine ⟨opened, data, closed, ?_, fun ho => ?_, fun hcl => ?_⟩
      · rw [hp, hon.random, hshape]
      · rw [hc]
        obtain ⟨h1, h2, h3⟩ := hopened ho
        exact ⟨h1, h2, fun hin => h3 (he hin)⟩
      · obtain ⟨h1, h2, h3⟩ := hclosed hcl
        exact ⟨hon.dialDone h1, hon.sendDone h2, hon.entered h3⟩
    · obtain ⟨h1, h2, h3⟩ := h.unused (Nat.lt_of_not_le hk)
      refine ⟨false, [], false, ?_, fun _ => ⟨rfl, ?_, fun hin => h3 (he hin)⟩,
        fun hcl => Bool.noConfusion hcl⟩
      · rw [hp, h1]
        rfl
      · rw [hc, h2]

theorem Opened.flag (h : Opened s k) (hpos : 0 < k) (hw : k.wire ≠ 0) {opened closed : Bool}
    {data : List Bytes}
    (hs : packets k s.log = transcript k (s.econn k).random opened data closed) :
    opened = true := by
  have hin := h hpos
  rw [hs] at hin
  exact (dialRsp_mem_transcript hw).mp hin

theorem Unclosed.flag (h : Unclosed s k) (hpos : 0 < k) (hw : k.wire ≠ 0) {opened closed : Bool}
    {data : List Bytes}
    (hs : packets k s.log = transcript k (s.econn k).random opened data closed) :
    closed = false := by
  have hnot := h hpos
  rw [hs] at hnot
  exact Bool.eq_false_iff.mpr fun hcl => hnot ((closePkt_mem_transcript hw).mpr hcl)

/-- `Client.Send` sends a packet of the connection. -/
theorem Said.send (h : Said s k) (hpos : 0 < k) (hw : k.wire ≠ 0) {pkt : Packet}
    {caller : SendCaller}
    (hA : ConnInv (view s k) fun r => H (k, r)) (hown : ∀ x ∈ caller.tokens, H x)
    (hmade : k ≤ s.nextConnID)
    (hcaller : caller = .dialOk k ∨ caller = .data k ∨ ∃ by', caller = .cleanup k by')
    (hsaid : caller.Says s pkt) (hready : caller.Ready s) (hlog : s₁.log = .sent pkt :: s.log)
    (hconn : s₁.econn = s.econn) (hnext : s₁.nextConnID = s.nextConnID) : Said s₁ k := by
  obtain ⟨opened, data, closed, hshape, hopened, hclosed⟩ := h.shape
  have hchunks : chunks k s₁.log = chunks k s.log := by
    rw [hlog]
    simp [Event.readFrom]
  have hended : .remoteEnded k ∈ s₁.log → .remoteEnded k ∈ s.log := by
    rw [hlog]
    simp
  have hpackets : k.owns pkt = true → packets k s₁.log = packets k s.log ++ [pkt] := by
    intro ho
    rw [hlog, packets_cons]
    simp [Event.sentFor, ho]
  refine ⟨fun hlt => absurd hmade (Nat.not_le.mpr (hnext ▸ hlt)), ?_⟩
  rw [hchunks, hconn]
  rcases hcaller with rfl | rfl | ⟨by', rfl⟩
  · obtain rfl : pkt = dialRsp k (s.econn k).random := hsaid
    rw [hpackets owns_dialRsp, hready hpos]
    exact ⟨true, [], false, rfl, fun ho => Bool.noConfusion ho, fun hc => Bool.noConfusion hc⟩
  · obtain ⟨b, rfl⟩ := hsaid
    -- `cleanFunc` has not come to its packet, since it waits for `sendDone`
    have hsendDone : (s.econn k).sendDone.closed = false := hA.send (hown _ List.mem_cons_self)
    obtain rfl : closed = false := by
      refine Bool.eq_false_iff.mpr fun hcl => ?_
      rw [(hclosed hcl).2.1] at hsendDone
      cases hsendDone
    obtain rfl := hready.flag hpos hw hshape
    rw [hpackets owns_dataPkt, hshape, transcript_data]
    exact ⟨true, data ++ [b], false, rfl, fun ho => Bool.noConfusion ho,
      fun hc => Bool.noConfusion hc⟩
  · obtain rfl : pkt = closePkt k (s.econn k).random := hsaid
    obtain ⟨hunclosed, hdial, hsend⟩ := hready
    obtain rfl := hunclosed.flag hpos hw hshape
    rw [hpackets (owns_closePkt hw), hshape, transcript_close]
    refine ⟨opened, data, true, rfl, fun ho => ?_,
      fun _ => ⟨hdial, hsend, (hA.clean (hown _ List.mem_cons_self)).1⟩⟩
    obtain ⟨h1, h2, h3⟩ := hopened ho
    exact ⟨h1, h2, fun hin => h3 (hended hin)⟩

/-- What the others know when `Client.Send` sends a packet. -/
theorem calm_send {tok : List (ConnID × Right)} {pkt : Packet} {caller : SendCaller}
    (hA : AgentInv s H) (hlt : s.nextConnID < 2 ^ 64) (hown : ∀ x ∈ caller.tokens, H x)
    (htok : ∀ x ∈ tok, H x ∧ x ∉ caller.tokens) (hsaid : caller.Says s pkt)
    (hready : caller.Ready s)
    (hlog : s₁.log = .sent pkt :: s.log) (hconn : s₁.econn = s.econn) : Calm s s₁ tok := by
  have hmade : ∀ x ∈ caller.tokens, x.1 < 2 ^ 64 := by
    intro x hx
    exact Nat.lt_of_le_of_lt (hA.made (r := x.2) (hown x hx)) hlt
  -- the connection has another packet only if one of its goroutines sent it
  have howner : ∀ k r, (k, r) ∈ tok → 0 < k → k.owns pkt = true →
      caller = .dialOk k ∨ caller = .data k ∨ ∃ by', caller = .cleanup k by' := by
    intro k r hk hpos ho
    exact hsaid.owner hpos (Nat.lt_of_le_of_lt (hA.made (htok _ hk).1) hlt) hmade ho
  have hpackets : ∀ k, packets k s₁.log = packets k s.log ++ if k.owns pkt then [pkt] else [] := by
    intro k
    rw [hlog, packets_cons]
    rfl
  refine ⟨fun k r _ => ?_, fun k => ?_, fun k hk hsilent hpos => ?_, fun k hk hunclosed hpos => ?_⟩
  · rw [hconn]
    exact .refl _
  · rw [hpackets]
    exact List.prefix_append _ _
  · have hopen : (s.econn k).dialDone.closed = false := (hA.conn k).dial (htok _ hk).1
    rw [hpackets, hsilent hpos]
    split
    · next ho =>
        rcases howner k _ hk hpos ho with rfl | rfl | ⟨by', rfl⟩
        · exact absurd List.mem_cons_self (htok _ hk).2
        · have hin := hready hpos
          rw [hsilent hpos] at hin
          cases hin
        · rw [hready.2.1] at hopen
          cases hopen
    · rfl
  · rw [hpackets, hconn]
    split
    · next ho =>
        have hw := ConnID.wire_ne_zero (Nat.lt_of_le_of_lt (hA.made (htok _ hk).1) hlt) hpos
        intro hin
        rcases List.mem_append.mp hin with hin | hin
        · exact hunclosed hpos hin
        · rw [List.mem_singleton, closePkt_eq hw] at hin
          rcases howner k _ hk hpos ho with rfl | rfl | ⟨by', rfl⟩
          · rw [← hin] at hsaid
            cases hsaid
          · obtain ⟨b, hb⟩ := hsaid
            rw [← hin] at hb
            cases hb
          · exact (htok _ hk).2 List.mem_cons_self
    · rw [List.append_nil]
      exact hunclosed hpos

/-! ### What comes next -/

/-- What an operation leaves to know. -/
def Told (s₁ : ClientState) (ops : List Op) (start : Option (Tid × List Op)) : Prop :=
  (∀ o ∈ ops, o.Knows s₁) ∧ System.StartOk (fun _ o => o.Knows s₁) start

theorem told_nil : Told s₁ [] none := ⟨by simp, trivial⟩

theorem told_one (h : o.Knows s₁) : Told s₁ [o] none := ⟨by simpa using h, trivial⟩

theorem SendCaller.returned_told {caller : SendCaller} {ok : Bool} (h : caller.Knows s₁ ok) :
    Told s₁ (caller.returned ok) none := by
  cases caller with
  | drain => exact told_nil
  | dialFailed k => exact told_one h
  | dialOk k => cases ok <;> exact told_one h
  | data k =>
      cases ok with
      | false => exact told_one trivial
      | true => exact told_one h
  | cleanup k by' => exact told_one trivial
  | serve => exact told_one trivial

theorem CleanCaller.returned_told (caller : CleanCaller) : Told s₁ caller.returned none := by
  cases caller with
  | serve => exact told_one trivial
  | exit rest => exact told_one trivial
  | reader => exact told_nil
  | cleaner => exact told_nil

theorem closeCh_told {α : Type} {ch : GoChan α} {set : GoChan α → EndpointConn} {k' : ConnID}
    (ho : o.Knows s₁) (hex : closeCh s k' ch set [o] = some (s₁, ops, start)) :
    Told s₁ ops start := by
  unfold closeCh at hex
  split at hex <;> cases hex
  · exact told_nil
  · exact told_one ho

/-- The stream's `Send`. -/
theorem exec_streamSend_told {pkt : Packet} {caller : SendCaller} {begunClosed : Bool}
    (hk : caller.Says s pkt ∧ caller.Ready s) (hmade : ∀ x ∈ caller.tokens, x.1 < 2 ^ 64)
    (hex : exec s t c (.streamSend pkt caller begunClosed) = some (s₁, ops, start)) :
    Told s₁ ops start := by
  obtain ⟨hsaid, hready⟩ := hk
  have hfailed : caller.Knows s false := by
    cases caller <;> first | exact hready | trivial
  simp only [exec] at hex
  repeat' split at hex
  all_goals cases hex
  · refine told_one ?_
    cases caller with
    | dialFailed k =>
        obtain ⟨err, random, rfl⟩ := hsaid
        intro hpos
        have hnot : k.owns (.ofDialResponse { error := err, connectID := 0, random := random }) =
            false := by
          have hw := ConnID.wire_ne_zero (hmade (k, .dial) List.mem_cons_self) hpos
          simp [ConnID.owns, Packet.ofDialResponse, Ne.symm hw]
        simp [Event.sentFor, hnot, hready hpos]
    | dialOk k =>
        obtain rfl : pkt = _ := hsaid
        intro hpos
        simp [Event.sentFor, owns_dialRsp]
    | data k =>
        intro hpos
        simp [hready hpos]
    | cleanup k by' => trivial
    | serve => trivial
    | drain => trivial
  · exact told_one hfailed
  · exact told_one hfailed

/-- The remote is read from. -/
theorem Said.reads (h : Said s k) (hpos : 0 < k) (hw : k.wire ≠ 0) (ho : Opened s k)
    (hmade : k ≤ s.nextConnID) (hp : packets k s₁.log = packets k s.log)
    (hnext : s.nextConnID ≤ s₁.nextConnID) (hon : Onward (s.econn k) (s₁.econn k)) : Said s₁ k := by
  obtain ⟨opened, data, closed, hshape, -, hclosed⟩ := h.shape
  refine ⟨fun hlt => absurd (Nat.le_trans hmade hnext) (Nat.not_le.mpr hlt), opened, data, closed,
    ?_, fun hop => ?_, fun hcl => ?_⟩
  · rw [hp, hon.random, hshape]
  · rw [ho.flag hpos hw hshape] at hop
    cases hop
  · obtain ⟨h1, h2, h3⟩ := hclosed hcl
    exact ⟨hon.dialDone h1, hon.sendDone h2, hon.entered h3⟩

theorem said_exec (hA : AgentInv s H) (hop : op.Knows s) (hown : ∀ x ∈ op.tokens, H x)
    (hlt : s.nextConnID < 2 ^ 64) (hnext : s.nextConnID ≤ s₁.nextConnID) (hpos : 0 < k)
    (hk : k < 2 ^ 64) (h : Said s k) (hex : exec s t c op = some (s₁, ops, start)) : Said s₁ k := by
  have hw := ConnID.wire_ne_zero hk hpos
  have hmade : ∀ x ∈ op.tokens, x.1 ≤ s.nextConnID := fun x hx => hA.made (r := x.2) (hown x hx)
  have honward : k ≤ s.nextConnID → Onward (s.econn k) (s₁.econn k) := fun hk => exec_onward hk hex
  rcases exec_packets hex with ⟨pkt, caller, begunClosed, rfl, -, -, hlog, hconn, hnx⟩ | hsame
  · by_cases ho : k.owns pkt = true
    · have howner := hop.1.owner hpos hk (fun x hx => Nat.lt_of_le_of_lt (hmade x hx) hlt) ho
      have hkm : k ≤ s.nextConnID := by
        rcases howner with rfl | rfl | ⟨by', rfl⟩
        · exact hmade (k, .dial) List.mem_cons_self
        · exact hmade (k, .send) List.mem_cons_self
        · exact hmade (k, .clean) List.mem_cons_self
      exact h.send hpos hw (hA.conn k) hown hkm howner hop.1 hop.2 hlog hconn hnx
    · refine h.onward ?_ ?_ ?_ hnext honward
      · rw [hlog]
        simp [Event.sentFor, ho]
      · rw [hlog]
        simp [Event.readFrom]
      · rw [hlog]
        simp
  · by_cases hread : op = .connRead k
    · subst hread
      have hkm := hmade (k, .resp) List.mem_cons_self
      exact h.reads hpos hw hop hkm (hsame k) hnext (honward hkm)
    · refine h.onward (hsame k) ?_ (fun he => (exec_ended hex he).resolve_right hread) hnext honward
      rcases exec_chunks hex with ⟨k', b, rfl, -, -, rfl⟩ | hchunks
      · have hne : k' ≠ k := fun heq => hread (by rw [heq])
        simp [Event.readFrom, hne]
      · exact hchunks k

/-- The `switch` of `Serve`. -/
theorem exec_packet_told {pkt : Packet} (hlt : s₁.nextConnID < 2 ^ 64)
    (hsaid : ∀ k, 0 < k → k < 2 ^ 64 → Said s k)
    (hex : exec s t c (.serve pkt) = some (s₁, ops, start)) : Told s₁ ops start := by
  simp only [exec, servePacket] at hex
  repeat' split at hex
  all_goals cases hex
  all_goals first
    | exact told_nil
    | exact told_one trivial
    | exact told_one ⟨⟨_, Or.inl rfl⟩, trivial⟩
    | exact told_one ⟨⟨_, Or.inr rfl⟩, trivial⟩
    | skip
  refine ⟨by simp [Op.Knows], fun o ho => ?_⟩
  obtain rfl := List.mem_singleton.mp ho
  intro hpos
  exact ((hsaid _ hpos hlt).unused (Nat.lt_succ_self _)).1

theorem exec_told (hA : AgentInv s H) (hop : op.Holds s) (hown : ∀ x ∈ op.tokens, H x)
    (hlt : s₁.nextConnID < 2 ^ 64) (hnext : s.nextConnID ≤ s₁.nextConnID)
    (hsaid : ∀ k, 0 < k → k < 2 ^ 64 → Said s k) (hk : op.Knows s)
    (hex : exec s t c op = some (s₁, ops, start)) : Told s₁ ops start := by
  have hmade : ∀ x ∈ op.tokens, x.1 ≤ s.nextConnID := fun x hx => hA.made (r := x.2) (hown x hx)
  rcases exec_packets hex with ⟨pkt, caller, begunClosed, rfl, -⟩ | hsame
  · exact exec_streamSend_told hk
      (fun x hx => Nat.lt_of_le_of_lt (Nat.le_trans (hmade x hx) hnext) hlt) hex
  -- what the goroutine knows it still knows
  have hk₁ : op.Knows s₁ :=
    Calm.knows (.of_same (fun k r hkr => exec_onward (hmade _ hkr) hex) hsame) hk
  cases op with
  | serve pkt => exact exec_packet_told hlt hsaid hex
  | streamSend pkt caller b =>
      exact exec_streamSend_told hk
        (fun x hx => Nat.lt_of_le_of_lt (Nat.le_trans (hmade x hx) hnext) hlt) hex
  | cleanupAll rest =>
      cases rest <;> simp only [exec] at hex <;> repeat' split at hex
      all_goals cases hex
      all_goals exact told_one trivial
  | sendReturn caller ok =>
      cases hex
      exact caller.returned_told hk₁
  | onceDone k caller =>
      cases hex
      exact caller.returned_told
  | cleanup k caller =>
      simp only [exec] at hex
      split at hex
      · cases hex
        exact caller.returned_told
      · split at hex <;> cases hex
        next hentered =>
          refine told_one fun hpos => ?_
          have hk' : k < 2 ^ 64 := Nat.lt_of_le_of_lt hop.1 hlt
          obtain ⟨opened, data, closed, hshape, -, hclosed⟩ := (hsaid k hpos hk').shape
          have hcl : closed = false := by
            refine Bool.eq_false_iff.mpr fun hcl => ?_
            exact hentered (hclosed hcl).2.2
          show closePkt k ((s.setConn k _).econn k).random ∉ packets k s.log
          rw [hshape, ClientState.setConn_econn, Function.update_self,
            closePkt_mem_transcript (ConnID.wire_ne_zero hk' hpos), hcl]
          exact Bool.false_ne_true
  | waitDialDone k caller =>
      simp only [exec] at hex
      repeat' split at hex
      all_goals cases hex
      · exact told_one trivial
      · exact told_one hk₁
  | closeSendCh k caller => exact closeCh_told (o := .waitSendDone k caller) hk₁ hex
  | waitSendDone k caller =>
      simp only [exec] at hex
      split at hex <;> cases hex
      next hdone =>
        have hcleans : 0 < (view s k).cleans := by
          have hstage := hop.1
          simp only [ConnView.stage, Prod.mk.injEq] at hstage
          rw [hstage.1]
          exact Nat.one_pos
        exact told_one ⟨rfl, hk₁, ((hA.conn k).cleaning hcleans).1, hdone⟩
  | closeDataCh k caller => exact closeCh_told (o := .deleteConn k caller) trivial hex
  | failSendDone k dialed =>
      refine closeCh_told ?_ hex
      cases dialed
      · exact hk₁
      · trivial
  | closeDialDone k =>
      simp only [exec, closeCh] at hex
      split at hex <;> cases hex <;> exact told_nil
  | closeSendDone k =>
      simp only [exec, closeCh] at hex
      split at hex <;> cases hex <;> exact told_nil
  | netDial k req =>
      simp only [exec] at hex
      split at hex <;> cases hex
      · exact told_one ⟨⟨_, _, rfl⟩, hk₁⟩
      · exact told_one hk₁
  | addConn k =>
      cases hex
      exact told_one ⟨rfl, hk₁⟩
  | sendChRecv k =>
      simp only [exec] at hex
      repeat' split at hex
      all_goals cases hex
      · exact told_one trivial
      · exact told_one ⟨⟨_, rfl⟩, hk₁⟩
  | startCleaner k =>
      cases hex
      exact ⟨by simp [Op.Knows], by simp [System.StartOk, Op.Knows]⟩
  | startReader k =>
      cases hex
      exact ⟨by simpa [Op.Knows] using hk₁, by simpa [System.StartOk, Op.Knows] using hk₁⟩
  | startSender k =>
      cases hex
      exact ⟨by simp [Op.Knows], by simpa [System.StartOk, Op.Knows] using hk₁⟩
  | startWriter k =>
      cases hex
      exact ⟨by simp [Op.Knows], by simp [System.StartOk, Op.Knows]⟩
  | serveLoop =>
      cases hex
      split <;> exact told_one trivial
  | _ =>
      simp only [exec] at hex
      repeat' split at hex
      all_goals cases hex
      all_goals first
        | exact told_nil
        | exact told_one trivial
        | exact told_one hk₁

end Steps

/-- What the agent has said of every connection, and what its goroutines know. -/
theorem agent_said {xfrChannelSize fromServer toServer : Nat} {s : System.State ClientState Tid Op}
    (h : Reach client.step System.unrestricted
      (newAgentClient xfrChannelSize fromServer toServer) s) (hlt : s.shared.nextConnID < 2 ^ 64) :
    (∀ k, 0 < k → k < 2 ^ 64 → Said s.shared k) ∧
      Pool.All (fun _ o => o.Knows s.shared) s.threads := by
  have hinv := System.invariant_owned Op.tokens (fun h => (agent_invariant h).1)
    (fun s _ => s.nextConnID < 2 ^ 64 → ∀ k, 0 < k → k < 2 ^ 64 → Said s k)
    (fun s _ o => s.nextConnID < 2 ^ 64 → o.Knows s) ?_ ?_ ?_ ?_ h
  · exact ⟨hinv.1 hlt, fun t o ho => hinv.2 t o ho hlt⟩
  · intro _ k hpos hk
    refine ⟨fun _ => ⟨rfl, rfl, ?_⟩, false, [], false, rfl, fun _ => ⟨rfl, rfl, ?_⟩,
      fun hc => Bool.noConfusion hc⟩
    · simp [newAgentClient]
    · simp [newAgentClient]
  · intro t o ho
    by_cases ht : t = .serve
    · simp only [newAgentClient, ht, if_pos, List.mem_singleton] at ho
      rw [ho]
      exact fun _ => trivial
    · simp [newAgentClient, ht] at ho
  · intro s t c o s₁ ops start hr ho hJ hP _ hex
    obtain ⟨-, hA, hholds⟩ := agent_invariant hr
    have hown : ∀ x ∈ o.tokens, Pool.Held Op.tokens s.threads x := fun x hx => ⟨t, o, ho, hx⟩
    have hnext := (hA.exec hown (hholds t o ho) hex).change.next
    have hex' : exec s.shared t c o = some (s₁, ops, start) := hex
    have hmade : ∀ x ∈ o.tokens, x.1 ≤ s.shared.nextConnID :=
      fun x hx => hA.made (r := x.2) (hown x hx)
    refine ⟨fun hlt₁ k hpos hk => ?_, fun t' o' htok hP' hlt₁ => ?_, ?_⟩
    · have hlt := Nat.lt_of_le_of_lt hnext hlt₁
      exact said_exec hA (hP hlt) hown hlt hnext hpos hk (hJ hlt k hpos hk) hex'
    · have hlt := Nat.lt_of_le_of_lt hnext hlt₁
      refine Calm.knows ?_ (hP' hlt)
      rcases exec_packets hex' with ⟨pkt, caller, begunClosed, rfl, -, -, hlog, hconn, -⟩ | hsame
      · exact calm_send hA hlt hown htok (hP hlt).1 (hP hlt).2 hlog hconn
      · exact .of_same (fun k r hkr => exec_onward (hA.made (htok _ hkr).1) hex') hsame
    · by_cases hlt₁ : s₁.nextConnID < 2 ^ 64
      · have hlt := Nat.lt_of_le_of_lt hnext hlt₁
        obtain ⟨hops, hstart⟩ :=
          exec_told hA (hholds t o ho) hown hlt₁ hnext (hJ hlt) (hP hlt) hex'
        refine ⟨fun o' ho' _ => hops o' ho', ?_⟩
        cases start with
        | none => trivial
        | some st => exact fun o' ho' _ => hstart o' ho'
      · refine ⟨fun o' _ hlt => absurd hlt hlt₁, ?_⟩
        cases start with
        | none => trivial
        | some st => exact fun o' _ hlt => absurd hlt hlt₁
  · intro s a s₁ start hr hJ _ harr
    have hsame : s₁.log = s.shared.log ∧ s₁.econn = s.shared.econn ∧
        s₁.nextConnID = s.shared.nextConnID ∧
        System.StartOk (fun _ o => s₁.nextConnID < 2 ^ 64 → o.Knows s₁) start := by
      cases a <;> simp only [client, arrive] at harr <;> repeat' split at harr
      all_goals cases harr
      all_goals simp [System.StartOk, Op.Knows, SendCaller.Says, SendCaller.Ready]
    obtain ⟨hlog, hconn, hnext, hstart⟩ := hsame
    refine ⟨fun hlt k hpos hk => ?_, fun t o hP hlt => ?_, hstart⟩
    · refine (hJ (hnext ▸ hlt) k hpos hk).onward (by rw [hlog]) (by rw [hlog])
        (by rw [hlog]; exact id) (Nat.le_of_eq hnext.symm) fun _ => ?_
      rw [hconn]
      exact .refl _
    · refine Calm.knows (.of_same (fun k r _ => ?_) fun k => by rw [hlog]) (hP (hnext ▸ hlt))
      rw [hconn]
      exact .refl _

end Konnectivity.Agent.Client
