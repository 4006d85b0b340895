import Konnectivity.Lib.Pipe
import Konnectivity.Proofs.Conversation

/-!
# From the remote to the server

`remoteToSendChannel` reads from the remote and puts what it read into
`sendCh`; `sendChannelToProxy` takes it from there and sends it as `DATA`.
Together they are a pipe, which `cleanFunc` ends by closing `sendCh`. A put
into the closed channel panics and is recovered, so the last read may be lost,
and after a failed `Send` the rest of the channel is drained.

So the payloads sent are a prefix of what was read, read by read. And where
the remote has ended the connection and no `Send` of its data fails, all of it
is sent before the `CLOSE_RSP`: unlike on the way to the remote, `cleanFunc`
waits here.
-/

namespace Konnectivity.Agent.Client

open Lib

/-! ## The pipe -/

def payloads (pkts : List Packet) : List Bytes :=
  pkts.filterMap fun pkt => pkt.getData.map Data.data

/-- What was sent as `DATA` of the connection. -/
def sentData (k : ConnID) (log : List Event) : List Bytes := payloads (packets k log)

/-- What `sendChannelToProxy` has in hand. -/
@[grind =]
def Op.carried : Op → List Bytes
  | .send pkt (.data _) | .streamSend pkt (.data _) _ => payloads [pkt]
  | _ => []

/-- What `remoteToSendChannel` has to put into `sendCh`. -/
@[grind =]
def Op.pending : Op → List Bytes
  | .sendChSend _ b => [b]
  | _ => []

/-- `sendChannelToProxy` has dropped nothing. -/
@[grind =]
def Op.flowing : Op → Bool
  | .sendChRecv _ | .send _ (.data _) | .streamSend _ (.data _) _ | .sendReturn (.data _) true =>
      true
  | _ => false

/-- `remoteToSendChannel` goes on reading. -/
@[grind =]
def Op.reading : Op → Bool
  | .connRead _ | .sendChSend _ _ => true
  | _ => false

/-- `sendChannelToProxy` sends no more. -/
@[grind =]
def Op.draining : Op → Bool
  | .drainSendCh _ | .closeSendDone _ => true
  | _ => false

/-- A `Send` of `sendChannelToProxy` has failed. -/
@[grind =]
def Op.failed : Op → Bool
  | .removeClient (.data _) | .sendReturn (.data _) false => true
  | _ => false

abbrev State := System.State ClientState Tid Op

def pipe (k : ConnID) (s : State) : Pipe Bytes where
  read := chunks k s.shared.log
  pend := (s.threads (.reader k)).flatMap Op.pending
  buf := (s.shared.econn k).sendCh.buf
  hand := (s.threads (.sender k)).flatMap Op.carried
  sent := sentData k s.shared.log

/-- `sendChannelToProxy` runs and has dropped nothing, or will be started. -/
def Flowing (k : ConnID) (s : State) : Prop :=
  (∃ o ∈ s.threads (.sender k), o.flowing = true) ∨ ∃ o ∈ s.threads (.dial k), .sender k ∈ o.starts

/-- `remoteToSendChannel` reads, or will be started. -/
def Reads (k : ConnID) (s : State) : Prop :=
  (∃ o ∈ s.threads (.reader k), o.reading = true) ∨ ∃ o ∈ s.threads (.dial k), .reader k ∈ o.starts

/-- `sendChannelToProxy` has come to its end. -/
def Spent (k : ConnID) (s : State) : Prop :=
  (∃ o ∈ s.threads (.sender k), o.draining = true) ∨ (s.shared.econn k).sendDone.closed = true

/-- The pipe of a connection. The fields under `strict` are about runs in which
no `Send` of its data fails. -/
structure Outflow (strict : Prop) (k : ConnID) (s : State) : Prop where
  inv : (pipe k s).Inv (strict ∨ Flowing k s) (Reads k s ∨ .remoteEnded k ∈ s.shared.log)
  ended : .remoteEnded k ∈ s.shared.log → ¬ Reads k s
  whole : strict → ∀ o ∈ s.threads (.sender k), o.failed = false
  spent : strict → Spent k s → (chunks k s.shared.log = [] ∧ ¬ Reads k s) ∨
    ((s.shared.econn k).sendCh.closed = true ∧ (s.shared.econn k).sendCh.buf = [])

/-- The operation is the `Send` of the connection's data. -/
def Op.sendsData (k : ConnID) : Op → Bool
  | .streamSend _ (.data k') _ => k' == k
  | _ => false

/-- No `Send` of the connection's data fails. -/
def SendsData (k : ConnID) (s : State) : System.Action Tid ClientAction Choice → Prop
  | .arrive _ => True
  | .run t c => ∀ o ∈ (s.threads t).head?, o.sendsData k = true → c.send = .ok

instance (k : ConnID) (s : State) :
    ∀ a : System.Action Tid ClientAction Choice, Decidable (SendsData k s a)
  | .arrive _ => isTrue trivial
  | .run t c => inferInstanceAs
      (Decidable (∀ o ∈ (s.threads t).head?, o.sendsData k = true → c.send = .ok))

@[simp]
theorem payloads_nil : payloads [] = [] := rfl

theorem payloads_append (ps ps' : List Packet) :
    payloads (ps ++ ps') = payloads ps ++ payloads ps' := by
  simp [payloads]

@[simp]
theorem payloads_dataPkt (k : ConnID) (b : Bytes) : payloads [dataPkt k b] = [b] := rfl

theorem payloads_closePkt (k : ConnID) (random : DialID) : payloads [closePkt k random] = [] := by
  unfold closePkt
  split <;> rfl

theorem payloads_transcript (k : ConnID) (random : DialID) (opened : Bool) (data : List Bytes)
    (closed : Bool) : payloads (transcript k random opened data closed) = data := by
  have hdata : payloads (data.map (dataPkt k)) = data := by
    induction data with
    | nil => rfl
    | cons b data ih =>
        show b :: payloads (data.map (dataPkt k)) = b :: data
        rw [ih]
  have hopen : payloads [dialRsp k random] = [] := rfl
  rw [transcript, payloads_append, payloads_append, hdata]
  cases opened <;> cases closed <;> simp [hopen, payloads_closePkt]

/-! ## Steps of the goroutines of the connection -/

section Steps

variable {strict : Prop} {s s₁ : ClientState} {pool : Tid → List Op} {t : Tid}
  {c : Choice} {op : Op} {ops : List Op} {start : Option (Tid × List Op)} {k : ConnID} {b : Bytes}

/-- `sendChannelToProxy` acts. -/
theorem Outflow.sender (h : Outflow strict k ⟨s, pool⟩) (ht : pool (.sender k) = [op])
    (hshape : Shaped pool) (hchunks : chunks k s₁.log = chunks k s.log)
    (hended : .remoteEnded k ∈ s₁.log → .remoteEnded k ∈ s.log)
    (hinv : Pipe.Inv { pipe k ⟨s, pool⟩ with
        buf := (s₁.econn k).sendCh.buf, hand := ops.flatMap Op.carried, sent := sentData k s₁.log }
      (strict ∨ ∃ o ∈ ops, o.flowing = true) (Reads k ⟨s, pool⟩ ∨ .remoteEnded k ∈ s.log))
    (hwhole : strict → ∀ o ∈ ops, o.failed = false)
    (hspent : strict → (∃ o ∈ ops, o.draining = true) ∨ (s₁.econn k).sendDone.closed = true →
      (chunks k s.log = [] ∧ ¬ Reads k ⟨s, pool⟩) ∨
        ((s₁.econn k).sendCh.closed = true ∧ (s₁.econn k).sendCh.buf = [])) :
    Outflow strict k ⟨s₁, Function.update pool (.sender k) ops⟩ := by
  have hreads : Reads k ⟨s₁, Function.update pool (.sender k) ops⟩ ↔ Reads k ⟨s, pool⟩ := by
    simp [Reads]
  -- the goroutine runs, so it will not be started
  have hstarts : ∀ o ∈ pool (.dial k), .sender k ∉ o.starts := by
    intro o ho hin
    rw [hshape.idle _ o ho _ hin] at ht
    cases ht
  refine ⟨?_, fun he => ?_, fun hs => ?_, fun hs => ?_⟩
  · have hpipe : pipe k ⟨s₁, Function.update pool (.sender k) ops⟩ = { pipe k ⟨s, pool⟩ with
        buf := (s₁.econn k).sendCh.buf, hand := ops.flatMap Op.carried,
        sent := sentData k s₁.log } := by
      simp [pipe, hchunks]
    rw [hpipe]
    refine hinv.weaken (fun hf => ?_) fun hr => ?_
    · rcases hf with hf | hf | ⟨o, ho, hin⟩
      · exact Or.inl hf
      · exact Or.inr (by simpa using hf)
      · exact absurd hin (hstarts o (by simpa using ho))
    · rw [hreads] at hr
      exact hr.imp_right hended
  · rw [hreads]
    exact h.ended (hended he)
  · simpa using hwhole hs
  · rw [hreads, hchunks]
    simpa [Spent] using hspent hs

/-- `remoteToSendChannel` acts. -/
theorem Outflow.reader (h : Outflow strict k ⟨s, pool⟩) (ht : pool (.reader k) = [op])
    (hshape : Shaped pool) (hsent : sentData k s₁.log = sentData k s.log)
    (hsendDone : (s₁.econn k).sendDone = (s.econn k).sendDone)
    (hinv : Pipe.Inv { pipe k ⟨s, pool⟩ with
        read := chunks k s₁.log, pend := ops.flatMap Op.pending, buf := (s₁.econn k).sendCh.buf }
      (strict ∨ Flowing k ⟨s, pool⟩)
      ((∃ o ∈ ops, o.reading = true) ∨ .remoteEnded k ∈ s₁.log))
    (hended : .remoteEnded k ∈ s₁.log → ∀ o ∈ ops, o.reading = false)
    (hspent : strict → Spent k ⟨s, pool⟩ →
      (chunks k s₁.log = [] ∧ ∀ o ∈ ops, o.reading = false) ∨
        ((s₁.econn k).sendCh.closed = true ∧ (s₁.econn k).sendCh.buf = [])) :
    Outflow strict k ⟨s₁, Function.update pool (.reader k) ops⟩ := by
  have hstarts : ∀ o ∈ pool (.dial k), .reader k ∉ o.starts := by
    intro o ho hin
    rw [hshape.idle _ o ho _ hin] at ht
    cases ht
  have hreads : Reads k ⟨s₁, Function.update pool (.reader k) ops⟩ ↔ ∃ o ∈ ops,
      o.reading = true := by
    constructor
    · rintro (hr | ⟨o, ho, hin⟩)
      · simpa using hr
      · exact absurd hin (hstarts o (by simpa using ho))
    · intro hr
      exact Or.inl (by simpa using hr)
  have hnot : (∀ o ∈ ops, o.reading = false) →
      ¬ Reads k ⟨s₁, Function.update pool (.reader k) ops⟩ := by
    intro hall hr
    obtain ⟨o, ho, hro⟩ := hreads.mp hr
    rw [hall o ho] at hro
    cases hro
  refine ⟨?_, fun he => hnot (hended he), fun hs => ?_, fun hs hsp => ?_⟩
  · have hpipe : pipe k ⟨s₁, Function.update pool (.reader k) ops⟩ = { pipe k ⟨s, pool⟩ with
        read := chunks k s₁.log, pend := ops.flatMap Op.pending,
        buf := (s₁.econn k).sendCh.buf } := by
      simp [pipe, hsent]
    rw [hpipe]
    refine hinv.weaken (fun hf => ?_) fun hr => ?_
    · simpa [Flowing] using hf
    · rwa [hreads] at hr
  · simpa using h.whole hs
  · have hsp' : Spent k ⟨s, pool⟩ := by simpa [Spent, hsendDone] using hsp
    exact (hspent hs hsp').imp_left fun hl => ⟨hl.1, hnot hl.2⟩

/-- `Client.Send`, called by `sendChannelToProxy`. -/
theorem Outflow.exec_send (h : Outflow strict k ⟨s, pool⟩) (ht : pool (.sender k) = [op])
    (hshape : Shaped pool) (hopen : (s.econn k).sendDone.closed = false) (hknows : op.Knows s)
    (hok : strict → ∀ pkt begunClosed, op = .streamSend pkt (.data k) begunClosed → c.send = .ok)
    (hkind : (∃ pkt, op = .send pkt (.data k)) ∨ (∃ pkt b, op = .streamSend pkt (.data k) b) ∨
      op = .removeClient (.data k) ∨ ∃ ok, op = .sendReturn (.data k) ok)
    (hex : exec s t c op = some (s₁, ops, start)) :
    start = none ∧ Outflow strict k ⟨s₁, Function.update pool (.sender k) ops⟩ := by
  have hmem : op ∈ pool (.sender k) := by
    rw [ht]
    exact List.mem_cons_self
  have hflowing : op.flowing = true → strict ∨ Flowing k ⟨s, pool⟩ :=
    fun hf => Or.inr (Or.inl ⟨op, hmem, hf⟩)
  have hhand : (pipe k ⟨s, pool⟩).hand = op.carried := by
    simp [pipe, ht]
  -- the same packet stays in hand
  have hkeep : ∀ {s₁ : ClientState} {o : Op}, s₁.log = s.log → s₁.econn = s.econn →
      op.flowing = true → o.carried = op.carried → o.failed = false → o.draining = false →
      Outflow strict k ⟨s₁, Function.update pool (.sender k) [o]⟩ := by
    intro s₁ o hlog hconn hf hcarried hfail hdrain
    refine h.sender ht hshape (by rw [hlog]) (by rw [hlog]; exact id) ?_
      (by simpa using fun _ => hfail) fun _ hsp => ?_
    · rw [hlog, hconn, show [o].flatMap Op.carried =
        (pipe k ⟨s, pool⟩).hand by simp [hhand, hcarried]]
      exact h.inv.weaken (fun _ => hflowing hf) id
    · rw [hconn, hopen] at hsp
      simp [hdrain] at hsp
  -- a `Send` has failed
  have hdrop : ∀ {s₁ : ClientState} {o : Op}, ¬ strict → s₁.log = s.log → s₁.econn = s.econn →
      o.carried = [] → o.flowing = false →
      Outflow strict k ⟨s₁, Function.update pool (.sender k) [o]⟩ := by
    intro s₁ o hnot hlog hconn hcarried hf
    refine h.sender ht hshape (by rw [hlog]) (by rw [hlog]; exact id) ?_ (fun hs => absurd hs hnot)
      fun hs => absurd hs hnot
    rw [hlog, hconn, show [o].flatMap Op.carried = [] by simp [hcarried]]
    exact h.inv.drop.weaken (by simp [hnot, hf]) id
  rcases hkind with ⟨pkt, rfl⟩ | ⟨pkt, b', rfl⟩ | rfl | ⟨ok, rfl⟩
  · simp only [exec] at hex
    split at hex <;> cases hex
    exact ⟨rfl, hkeep rfl rfl rfl rfl rfl rfl⟩
  · obtain ⟨b, rfl⟩ := hknows.1
    have hnot : c.send ≠ .ok → ¬ strict := fun hne hs => hne (hok hs _ _ rfl)
    simp only [exec] at hex
    split at hex
    · split at hex
      · cases hex
      · split at hex <;> cases hex
        refine ⟨rfl, h.sender ht hshape (by simp [Event.readFrom]) (by simp) ?_
          (by simp [Op.failed]) fun _ hsp => ?_⟩
        · have hinv := h.inv.deliver (hflowing rfl)
          rw [hhand] at hinv
          have hsent : sentData k (.sent (dataPkt k b) :: s.log) = sentData k s.log ++ [b] := by
            simp [sentData, Event.sentFor, owns_dataPkt, payloads_append]
          show Pipe.Inv { pipe k ⟨s, pool⟩ with
            buf := (s.econn k).sendCh.buf, hand := [],
            sent := sentData k (.sent (dataPkt k b) :: s.log) } _ _
          rw [hsent]
          exact hinv.weaken (fun _ => hflowing rfl) id
        · simp [hopen, Op.draining] at hsp
    · next hsend =>
        cases hex
        exact ⟨rfl, hdrop (hnot (by simp [hsend])) rfl rfl rfl rfl⟩
    · next hsend =>
        cases hex
        exact ⟨rfl, hdrop (hnot (by simp [hsend])) rfl rfl rfl rfl⟩
  · cases hex
    exact ⟨rfl, hdrop (fun hs => Bool.noConfusion (h.whole hs _ hmem)) rfl rfl rfl rfl⟩
  · cases hex
    cases ok with
    | false => exact ⟨rfl, hdrop (fun hs => Bool.noConfusion (h.whole hs _ hmem)) rfl rfl rfl rfl⟩
    | true => exact ⟨rfl, hkeep rfl rfl rfl rfl rfl rfl⟩

/-- `sendChannelToProxy` with its channels. -/
theorem Outflow.exec_sender (h : Outflow strict k ⟨s, pool⟩) (ht : pool (.sender k) = [op])
    (hshape : Shaped pool) (hopen : (s.econn k).sendDone.closed = false)
    (hkind : op = .sendChRecv k ∨ op = .drainSendCh k ∨ op = .closeSendDone k)
    (hex : exec s t c op = some (s₁, ops, start)) :
    start = none ∧ Outflow strict k ⟨s₁, Function.update pool (.sender k) ops⟩ := by
  have hmem : op ∈ pool (.sender k) := by
    rw [ht]
    exact List.mem_cons_self
  have hhand : (pipe k ⟨s, pool⟩).hand = [] := by
    rcases hkind with rfl | rfl | rfl <;> simp [pipe, ht, Op.carried]
  have hsame : Pipe.Inv { pipe k ⟨s, pool⟩ with hand := [] } (strict ∨ Flowing k ⟨s, pool⟩)
      (Reads k ⟨s, pool⟩ ∨ .remoteEnded k ∈ s.log) := by
    rw [← hhand]
    exact h.inv
  rcases hkind with rfl | rfl | rfl
  · have hflowing : strict ∨ Flowing k ⟨s, pool⟩ := Or.inr (Or.inl ⟨_, hmem, rfl⟩)
    simp only [exec] at hex
    split at hex
    · cases hex
    · next hrecv =>
        cases hex
        obtain ⟨hbuf, hclosed⟩ : (s.econn k).sendCh.buf = [] ∧
            (s.econn k).sendCh.closed = true := by
          unfold GoChan.recv at hrecv
          repeat' split at hrecv
          all_goals simp_all
        exact ⟨rfl, h.sender ht hshape rfl id (hsame.weaken (fun _ => hflowing) id)
          (by simp [Op.failed]) fun _ _ => Or.inr ⟨hclosed, hbuf⟩⟩
    · next b ch hrecv =>
        cases hex
        have hbuf := GoChan.recv_buf hrecv
        refine ⟨rfl, h.sender ht hshape rfl id ?_ (by simp [Op.failed]) fun _ hsp => ?_⟩
        · have hch : ((s.setConn k { s.econn k with sendCh := ch }).econn k).sendCh = ch := by simp
          rw [hch]
          exact (h.inv.take hbuf hhand).weaken (fun _ => hflowing) id
        · simp [hopen, Op.draining] at hsp
  · have hspent : strict → _ := fun hs => h.spent hs (Or.inl ⟨_, hmem, rfl⟩)
    simp only [exec] at hex
    split at hex
    · cases hex
    · cases hex
      exact ⟨rfl, h.sender ht hshape rfl id (hsame.weaken (by simpa [Op.flowing] using Or.inl) id)
        (by simp [Op.failed]) fun hs _ => hspent hs⟩
    · next b ch hrecv =>
        cases hex
        have hbuf := GoChan.recv_buf hrecv
        have hnot : ¬ strict := by
          intro hs
          rcases hspent hs with ⟨hnil, -⟩ | ⟨-, hnil⟩
          · rw [show (s.econn k).sendCh.buf = [] from h.inv.buf_nil hnil] at hbuf
            cases hbuf
          · rw [hnil] at hbuf
            cases hbuf
        refine ⟨rfl, h.sender ht hshape rfl id ?_ (by simp [Op.failed]) fun hs => absurd hs hnot⟩
        have hch : ((s.setConn k { s.econn k with sendCh := ch }).econn k).sendCh = ch := by simp
        rw [hch]
        exact (hsame.discard hbuf).weaken (by simp [Op.flowing, hnot]) id
  · have hspent : strict → _ := fun hs => h.spent hs (Or.inl ⟨_, hmem, rfl⟩)
    simp only [exec] at hex
    rw [closeCh_open hopen] at hex
    cases hex
    have hch : ((s.setConn k { s.econn k with
        sendDone := { (s.econn k).sendDone with closed := true } }).econn k).sendCh =
        (s.econn k).sendCh := by simp
    refine ⟨rfl, h.sender ht hshape rfl id ?_ (by simp) fun hs _ => ?_⟩
    · rw [hch]
      exact hsame.weaken (by simpa using Or.inl) id
    · rw [hch]
      exact hspent hs

/-- `remoteToSendChannel`. -/
theorem Outflow.exec_reader (h : Outflow strict k ⟨s, pool⟩) (ht : pool (.reader k) = [op])
    (hshape : Shaped pool) (hkind : op = .connRead k ∨ ∃ b, op = .sendChSend k b)
    (hex : exec s t c op = some (s₁, ops, start)) :
    start = none ∧ Outflow strict k ⟨s₁, Function.update pool (.reader k) ops⟩ := by
  have hreads : Reads k ⟨s, pool⟩ := by
    refine Or.inl ⟨op, ?_, ?_⟩
    · show op ∈ pool (.reader k)
      rw [ht]
      exact List.mem_cons_self
    · rcases hkind with rfl | ⟨b, rfl⟩ <;> rfl
  have hnot : .remoteEnded k ∉ s.log := fun he => h.ended he hreads
  have hspent : strict → Spent k ⟨s, pool⟩ →
      (s.econn k).sendCh.closed = true ∧ (s.econn k).sendCh.buf = [] :=
    fun hs hsp => (h.spent hs hsp).resolve_left fun hl => hl.2 hreads
  rcases hkind with rfl | ⟨b, rfl⟩
  · have hpend : (pipe k ⟨s, pool⟩).pend = [] := by
      simp [pipe, ht, Op.pending]
    simp only [exec] at hex
    split at hex
    · next b hread =>
        split at hex <;> cases hex
        refine ⟨rfl, h.reader ht hshape (by simp [sentData, Event.sentFor]) rfl ?_ ?_
          fun hs hsp => Or.inr (hspent hs hsp)⟩
        · have hchunks : chunks k (s.record (.read k b)).log = chunks k s.log ++ [b] := by
            simp [Event.readFrom]
          rw [hchunks]
          exact (h.inv.read (Or.inl hreads) hpend b).weaken id fun _ => Or.inl hreads
        · simp [hnot]
    · cases hex
      have hsame : Pipe.Inv { pipe k ⟨s, pool⟩ with pend := [] } (strict ∨ Flowing k ⟨s, pool⟩)
          (Reads k ⟨s, pool⟩ ∨ .remoteEnded k ∈ s.log) := by
        rw [← hpend]
        exact h.inv
      refine ⟨rfl, ?_⟩
      split
      · refine h.reader ht hshape rfl rfl (hsame.weaken id ?_) ?_ fun hs hsp =>
          Or.inr (hspent hs hsp)
        · simp [Op.reading, hnot]
        · simp [hnot]
      · refine h.reader ht hshape (by simp [sentData, Event.sentFor]) rfl ?_ (by simp [Op.reading])
          fun hs hsp => Or.inr (hspent hs hsp)
        have hchunks : chunks k (s.record (.remoteEnded k)).log = chunks k s.log := by
          simp [Event.readFrom]
        rw [hchunks]
        exact hsame.weaken id fun _ => Or.inl hreads
  · -- the item in hand is given up
    have hgiveUp : Outflow strict k ⟨s, Function.update pool (.reader k) [.cleanup k .reader]⟩ := by
      refine h.reader ht hshape rfl rfl (h.inv.giveUp.weaken id ?_) (by simp [Op.reading])
        fun hs hsp => Or.inr (hspent hs hsp)
      simp [Op.reading, hnot]
    simp only [exec] at hex
    split at hex
    · split at hex <;> cases hex
      exact ⟨rfl, hgiveUp⟩
    · split at hex
      · cases hex
      · cases hex
        exact ⟨rfl, hgiveUp⟩
      · next ch hsend =>
          cases hex
          have hopen : (s.econn k).sendCh.closed = false ∧
              ch.buf = (s.econn k).sendCh.buf ++ [b] := by
            unfold GoChan.send at hsend
            repeat' split at hsend
            all_goals cases hsend
            exact ⟨by simpa using ‹¬ (s.econn k).sendCh.closed = true›, rfl⟩
          have hch : ((s.setConn k { s.econn k with sendCh := ch }).econn k).sendCh = ch := by simp
          refine ⟨rfl, h.reader ht hshape rfl (by simp) ?_ (fun he => absurd he hnot)
            fun hs hsp => ?_⟩
          · rw [hch, hopen.2]
            have hpend : (pipe k ⟨s, pool⟩).pend = [b] := by
              simp [pipe, ht, Op.pending]
            have hinv := h.inv.put
            rw [hpend] at hinv
            exact hinv.weaken id fun _ => Or.inl hreads
          · rw [(hspent hs hsp).1] at hopen
            cases hopen.1

end Steps

/-! ## Steps of the others -/

/-- The connection whose pipe an operation moves. -/
@[grind =]
def Op.flow : Op → Option ConnID
  | .connRead k | .sendChSend k _ | .sendChRecv k | .drainSendCh k | .closeSendDone k
  | .discardSendCh k | .failSendDone k _ | .startReader k | .startSender k
  | .send _ (.data k) | .streamSend _ (.data k) _ | .removeClient (.data k)
  | .sendReturn (.data k) _ => some k
  | _ => none

theorem flow_cases {op : Op} {k : ConnID} (h : op.flow = some k) :
    (op = .connRead k ∨ ∃ b, op = .sendChSend k b) ∨
    (op = .sendChRecv k ∨ op = .drainSendCh k ∨ op = .closeSendDone k) ∨
    ((∃ pkt, op = .send pkt (.data k)) ∨ (∃ pkt b, op = .streamSend pkt (.data k) b) ∨
      op = .removeClient (.data k) ∨ ∃ ok, op = .sendReturn (.data k) ok) ∨
    (op = .discardSendCh k ∨ (∃ dialed, op = .failSendDone k dialed) ∨ op = .startReader k ∨
      op = .startSender k) := by
  unfold Op.flow at h
  split at h <;> simp_all

/-- What the pipe sees of a connection, when others act. -/
structure Beside (e e₁ : EndpointConn) : Prop where
  buf : e₁.sendCh.buf = e.sendCh.buf
  closed : e.sendCh.closed = true → e₁.sendCh.closed = true
  sendDone : e₁.sendDone = e.sendDone

section Others

variable {strict : Prop} {s s₁ : ClientState} {t : Tid} {c : Choice} {op o : Op}
  {ops : List Op} {start : Option (Tid × List Op)} {k k' : ConnID} {st st₁ : State}

theorem Beside.refl (e : EndpointConn) : Beside e e := ⟨rfl, id, rfl⟩

theorem Beside.setConn {e : EndpointConn} (h : k' = k → Beside (s.econn k) e) :
    Beside (s.econn k) ((s.setConn k' e).econn k) := by
  by_cases hk : k' = k
  · subst hk
    simpa using h rfl
  · simp only [ClientState.setConn_econn, Function.update_of_ne (Ne.symm hk)]
    exact .refl _

theorem closeCh_beside {α : Type} {ch : GoChan α} {set : GoChan α → EndpointConn} {ops' : List Op}
    (h : k' = k → Beside (s.econn k) (set { ch with closed := true }))
    (hex : closeCh s k' ch set ops' = some (s₁, ops, start)) : Beside (s.econn k) (s₁.econn k) := by
  unfold closeCh GoChan.close at hex
  split at hex
  · cases hex
    exact .refl _
  · next hclose =>
      cases hex
      split at hclose <;> cases hclose
      exact .setConn h

theorem exec_beside (hflow : op.flow ≠ some k) (hserve : ∀ pkt, op ≠ .serve pkt)
    (hex : exec s t c op = some (s₁, ops, start)) : Beside (s.econn k) (s₁.econn k) := by
  have hne : ∀ {k'}, op.flow = some k' → k' = k → False := fun h heq => hflow (heq ▸ h)
  cases op with
  | serve pkt => exact absurd rfl (hserve pkt)
  | cleanupAll rest =>
      cases rest <;> simp only [exec] at hex <;> repeat' split at hex
      all_goals cases hex
      all_goals exact .refl _
  | failSendDone k' dialed => exact closeCh_beside (fun hk => (hne rfl hk).elim) hex
  | closeDialDone k' =>
      refine closeCh_beside ?_ hex
      rintro rfl
      exact ⟨rfl, id, rfl⟩
  | closeSendCh k' caller =>
      refine closeCh_beside ?_ hex
      rintro rfl
      exact ⟨rfl, fun _ => rfl, rfl⟩
  | closeDataCh k' caller =>
      refine closeCh_beside ?_ hex
      rintro rfl
      exact ⟨rfl, id, rfl⟩
  | closeSendDone k' => exact closeCh_beside (fun hk => (hne rfl hk).elim) hex
  | _ =>
      simp only [exec] at hex
      repeat' split at hex
      all_goals cases hex
      all_goals first
        | exact .refl _
        | exact Beside.setConn fun hk => (hne rfl hk).elim
        | (refine Beside.setConn ?_; rintro rfl; exact ⟨rfl, id, rfl⟩)

/-- Nobody else sends the data of the connection. -/
theorem exec_sentData (hflow : op.flow ≠ some k) (hpos : 0 < k) (hk : k < 2 ^ 64)
    (hknows : op.Knows s) (hmade : ∀ x ∈ op.tokens, x.1 < 2 ^ 64)
    (hex : exec s t c op = some (s₁, ops, start)) : sentData k s₁.log = sentData k s.log := by
  rcases exec_packets hex with ⟨pkt, caller, begunClosed, rfl, -, -, hlog, -, -⟩ | hsame
  · rw [sentData, hlog, packets_cons, payloads_append]
    by_cases ho : k.owns pkt = true
    · have hnil : payloads [pkt] = [] := by
        rcases hknows.1.owner hpos hk hmade ho with rfl | rfl | ⟨by', rfl⟩
        · rw [show pkt = _ from hknows.1]
          rfl
        · exact absurd rfl hflow
        · rw [show pkt = _ from hknows.1]
          exact payloads_closePkt _ _
      simp [Event.sentFor, ho, hnil, sentData]
    · simp [Event.sentFor, ho, sentData]
  · rw [sentData, hsame, sentData]

/-- Who goes on reading was reading. -/
theorem exec_reading (hex : exec s t c op = some (s₁, ops, start)) :
    ∀ o ∈ ops, o.reading = true → op.reading = true := by
  cases op with
  | connRead k => exact fun _ _ _ => rfl
  | sendChSend k b => exact fun _ _ _ => rfl
  | serve pkt =>
      simp only [exec, servePacket] at hex
      repeat' split at hex
      all_goals cases hex
      all_goals simp [Op.reading]
  | cleanupAll rest =>
      cases rest <;> simp only [exec] at hex <;> repeat' split at hex
      all_goals cases hex
      all_goals simp [Op.reading]
  | sendReturn caller ok =>
      cases hex
      cases caller <;> cases ok <;> simp [SendCaller.returned, Op.reading]
  | onceDone k caller =>
      cases hex
      cases caller <;> simp [CleanCaller.returned, Op.reading]
  | cleanup k caller =>
      simp only [exec] at hex
      repeat' split at hex
      all_goals cases hex
      · cases caller <;> simp [CleanCaller.returned, Op.reading]
      · simp [Op.reading]
  | serveLoop =>
      cases hex
      split <;> simp [Op.reading]
  | failSendDone k dialed =>
      simp only [exec, closeCh] at hex
      split at hex <;> cases hex
      · simp
      · cases dialed <;> simp [Op.reading]
  | _ =>
      simp only [exec, closeCh] at hex
      repeat' split at hex
      all_goals cases hex
      all_goals simp [Op.reading]

theorem Op.pending_nil (h : o.reading = false) : o.pending = [] := by
  cases o <;> first | rfl | cases h

theorem flow_of_sender (h : op.tid = .sender k) : op.flow = some k := by
  have hclean : ∀ {k' : ConnID} {caller : CleanCaller}, caller.tid k' ≠ .sender k := by
    intro k' caller
    cases caller <;> simp [CleanCaller.tid]
  have hcaller : ∀ {caller : SendCaller}, caller.tid = .sender k → caller = .data k := by
    intro caller h
    cases caller with
    | cleanup k' by' => exact absurd h hclean
    | data k' =>
        injection h with h
        rw [h]
    | _ => simp [SendCaller.tid] at h
  cases op with
  | send pkt caller =>
      rw [hcaller h]
      rfl
  | streamSend pkt caller b =>
      rw [hcaller h]
      rfl
  | removeClient caller =>
      rw [hcaller h]
      rfl
  | sendReturn caller ok =>
      rw [hcaller h]
      rfl
  | sendChRecv k' =>
      injection h with h
      rw [h]
      rfl
  | drainSendCh k' =>
      injection h with h
      rw [h]
      rfl
  | closeSendDone k' =>
      injection h with h
      rw [h]
      rfl
  | _ => first
    | exact absurd h hclean
    | simp [Op.tid] at h

theorem flow_of_reading (h : op.tid = .reader k) (hr : op.reading = true) : op.flow = some k := by
  cases op <;> simp only [Op.reading, Bool.false_eq_true] at hr
  all_goals injection h with h
  all_goals rw [h]
  all_goals rfl

/-- Who has data in hand has still to close `sendDone`. -/
theorem carried_tokens (h : o.carried ≠ []) (htid : o.tid = .sender k) : (k, .send) ∈ o.tokens := by
  rcases flow_cases (flow_of_sender htid) with hkind | hkind | hkind | hkind
  · rcases hkind with rfl | ⟨b, rfl⟩ <;> exact absurd rfl h
  · rcases hkind with rfl | rfl | rfl <;> exact absurd rfl h
  · rcases hkind with ⟨pkt, rfl⟩ | ⟨pkt, b, rfl⟩ | rfl | ⟨ok, rfl⟩ <;> exact List.mem_cons_self
  · rcases hkind with rfl | ⟨d, rfl⟩ | rfl | rfl <;> exact absurd rfl h

theorem Outflow.still (h : Outflow strict k st) (hpipe : pipe k st₁ = pipe k st)
    (hflow : Flowing k st₁ → Flowing k st) (hreads : Reads k st₁ → Reads k st)
    (hended : .remoteEnded k ∈ st₁.shared.log → .remoteEnded k ∈ st.shared.log)
    (hsender : ∀ o ∈ st₁.threads (.sender k), o ∈ st.threads (.sender k) ∨ o = .sendChRecv k)
    (hclosed : (st.shared.econn k).sendCh.closed = true → (st₁.shared.econn k).sendCh.closed = true)
    (hdone : (st₁.shared.econn k).sendDone.closed = true →
      (st.shared.econn k).sendDone.closed = true ∨
      (chunks k st.shared.log = [] ∧ ¬ Reads k st₁)) : Outflow strict k st₁ := by
  have hchunks : chunks k st₁.shared.log = chunks k st.shared.log := congrArg Pipe.read hpipe
  have hbuf : (st₁.shared.econn k).sendCh.buf = (st.shared.econn k).sendCh.buf :=
    congrArg Pipe.buf hpipe
  refine ⟨?_, fun he hr => h.ended (hended he) (hreads hr), fun hs o ho => ?_, fun hs hsp => ?_⟩
  · rw [hpipe]
    exact h.inv.weaken (Or.imp_right hflow) (Or.imp hreads hended)
  · rcases hsender o ho with ho | rfl
    · exact h.whole hs o ho
    · rfl
  · have hkeep : Spent k st → _ := fun hsp => (h.spent hs hsp).imp
      (fun hl => And.intro (hchunks.trans hl.1) fun hr => hl.2 (hreads hr))
      fun hr => And.intro (hclosed hr.1) (hbuf.trans hr.2)
    rcases hsp with ⟨o, ho, hd⟩ | hd
    · rcases hsender o ho with ho | rfl
      · exact hkeep (Or.inl ⟨o, ho, hd⟩)
      · cases hd
    · rcases hdone hd with hd | ⟨hnil, hr⟩
      · exact hkeep (Or.inr hd)
      · exact Or.inl ⟨hchunks.trans hnil, hr⟩

theorem exec_start (hflow : op.flow ≠ some k) (hserve : ∀ pkt, op ≠ .serve pkt) {t' : Tid}
    {ops' : List Op} (hex : exec s t c op = some (s₁, ops, some (t', ops'))) :
    t' ≠ .reader k ∧ t' ≠ .sender k ∧ t' ≠ .dial k := by
  have hne : ∀ {k'}, op.flow = some k' → k' ≠ k := fun h heq => hflow (heq ▸ h)
  cases op with
  | serve pkt => exact absurd rfl (hserve pkt)
  | cleanupAll rest =>
      cases rest <;> simp only [exec] at hex <;> repeat' split at hex
      all_goals cases hex
  | startReader k' =>
      cases hex
      simpa using hne rfl
  | startSender k' =>
      cases hex
      simpa using hne rfl
  | _ =>
      simp only [exec, closeCh] at hex
      repeat' split at hex
      all_goals cases hex
      all_goals simp

theorem spawn_at {pool : Tid → List Op} {x : Tid}
    (hx : ∀ t' ops', start = some (t', ops') → t' ≠ x) :
    Pool.spawn (Function.update pool t ops) start x = Function.update pool t ops x := by
  cases start with
  | none => rfl
  | some st => exact Function.update_of_ne (Ne.symm (hx st.1 st.2 rfl)) _ _

/-- An operation that does not move the pipe. -/
theorem Outflow.exec_other {pool : Tid → List Op} (h : Outflow strict k ⟨s, pool⟩)
    (hshape : Shaped pool) (ht : pool t = [op]) (hflow : op.flow ≠ some k)
    (hserve : ∀ pkt, op ≠ .serve pkt) (hpos : 0 < k) (hk : k < 2 ^ 64) (hknows : op.Knows s)
    (hmade : ∀ x ∈ op.tokens, x.1 < 2 ^ 64) (hex : exec s t c op = some (s₁, ops, start)) :
    Outflow strict k ⟨s₁, Pool.spawn (Function.update pool t ops) start⟩ := by
  have htid : op.tid = t := hshape.own t op (by rw [ht]; exact List.mem_cons_self)
  have hbeside := exec_beside hflow hserve hex
  have hstart : ∀ t' ops', start = some (t', ops') → t' ≠ .reader k ∧ t' ≠ .sender k ∧
      t' ≠ .dial k := by
    intro t' ops' hst
    subst hst
    exact exec_start hflow hserve hex
  have hreader : Pool.spawn (Function.update pool t ops) start (.reader k) =
      Function.update pool t ops (.reader k) :=
    spawn_at fun t' ops' hst => (hstart t' ops' hst).1
  have hdial : Pool.spawn (Function.update pool t ops) start (.dial k) =
      Function.update pool t ops (.dial k) :=
    spawn_at fun t' ops' hst => (hstart t' ops' hst).2.2
  have hsender : Pool.spawn (Function.update pool t ops) start (.sender k) = pool (.sender k) := by
    rw [spawn_at fun t' ops' hst => (hstart t' ops' hst).2.1, Function.update_of_ne]
    intro heq
    exact hflow (flow_of_sender (htid.trans heq.symm))
  -- `remoteToSendChannel` is not reading, if it is the one that acts
  have hidle : t = .reader k → op.reading = false ∧ ∀ o ∈ ops, o.reading = false := by
    intro heq
    have hop : op.reading = false :=
      Bool.eq_false_iff.mpr fun hr => hflow (flow_of_reading (htid.trans heq) hr)
    refine ⟨hop, fun o ho => Bool.eq_false_iff.mpr fun hr => ?_⟩
    rw [exec_reading hex o ho hr] at hop
    cases hop
  have hchunks : chunks k s₁.log = chunks k s.log := by
    rcases exec_chunks hex with ⟨k', b, rfl, -, -, rfl⟩ | hchunks
    · have hne : k' ≠ k := fun heq => hflow (by rw [heq]; rfl)
      simp [Event.readFrom, hne]
    · exact hchunks k
  have hpend : (Function.update pool t ops (.reader k)).flatMap Op.pending =
      (pool (.reader k)).flatMap Op.pending := by
    by_cases heq : .reader k = t
    · obtain ⟨h1, h2⟩ := hidle heq.symm
      rw [heq, Function.update_self, ht,
        List.flatMap_eq_nil_iff.mpr fun o ho => Op.pending_nil (h2 o ho)]
      simp [Op.pending_nil h1]
    · rw [Function.update_of_ne heq]
  have hstarts : ∀ o ∈ Function.update pool t ops (.dial k), ∀ x ∈ o.starts,
      ∃ o ∈ pool (.dial k), x ∈ o.starts := by
    intro o ho x hx
    by_cases heq : .dial k = t
    · rw [heq, Function.update_self] at ho
      exact ⟨op, by rw [heq, ht]; exact List.mem_cons_self, ((exec_shape hex).2.1 o ho).2 x hx⟩
    · rw [Function.update_of_ne heq] at ho
      exact ⟨o, ho, hx⟩
  have hat : ∀ {x : Tid} {o : Op} {l : List Op},
      Pool.spawn (Function.update pool t ops) start x = l →
      o ∈ (⟨s₁, Pool.spawn (Function.update pool t ops) start⟩ : State).threads x → o ∈ l := by
    rintro x o l rfl ho
    exact ho
  refine h.still ?_ ?_ ?_ (fun he => (exec_ended hex he).resolve_right ?_)
    (fun o ho => Or.inl (hat hsender ho)) hbeside.closed fun hd => Or.inl ?_
  · simp only [pipe, hchunks, hreader, hpend, hsender, hbeside.buf,
      exec_sentData hflow hpos hk hknows hmade hex]
  · rintro (⟨o, ho, hf⟩ | ⟨o, ho, hx⟩)
    · exact Or.inl ⟨o, hat hsender ho, hf⟩
    · exact Or.inr (hstarts o (hat hdial ho) _ hx)
  · rintro (⟨o, ho, hr⟩ | ⟨o, ho, hx⟩)
    · have hin := hat hreader ho
      by_cases heq : .reader k = t
      · rw [heq, Function.update_self] at hin
        rw [(hidle heq.symm).2 o hin] at hr
        cases hr
      · rw [Function.update_of_ne heq] at hin
        exact Or.inl ⟨o, hin, hr⟩
    · exact Or.inr (hstarts o (hat hdial ho) _ hx)
  · rintro rfl
    exact hflow rfl
  · rw [← hbeside.sendDone]
    exact hd

theorem Said.silent (h : Said s k) (hpos : 0 < k) (hs : Silent s k) : chunks k s.log = [] := by
  obtain ⟨opened, data, closed, hshape, hopened, -⟩ := h.shape
  rw [hs hpos] at hshape
  exact (hopened (transcript_nil hshape.symm).1).2.1

/-- The goroutine that dials starts the two, or tells them that it will not. -/
theorem Outflow.exec_dial {pool : Tid → List Op} (h : Outflow strict k ⟨s, pool⟩)
    (hshape : Shaped pool) (ht : pool (.dial k) = [op]) (hpos : 0 < k) (hsaid : Said s k)
    (hall : Pool.All (fun _ o => o.Knows s) pool)
    (hopen : ∀ dialed, op = .failSendDone k dialed → (s.econn k).sendDone.closed = false)
    (hkind : op = .discardSendCh k ∨ (∃ dialed, op = .failSendDone k dialed) ∨ op = .startReader k ∨
      op = .startSender k)
    (hex : exec s t c op = some (s₁, ops, start)) :
    Outflow strict k ⟨s₁, Pool.spawn (Function.update pool (.dial k) ops) start⟩ := by
  have hmem : op ∈ pool (.dial k) := by
    rw [ht]
    exact List.mem_cons_self
  have hknows := hall _ op hmem
  have hnoReader : Silent s k → ∀ o ∈ pool (.reader k), o.reading = false := by
    intro hs o ho
    refine Bool.eq_false_iff.mpr fun hr => ?_
    have hopened : Opened s k := by
      have hko := hall _ o ho
      have htid := hshape.own _ o ho
      cases o <;> simp only [Op.reading, Bool.false_eq_true] at hr
      all_goals injection htid with htid
      all_goals exact htid ▸ hko
    have hin := hopened hpos
    rw [hs hpos] at hin
    cases hin
  -- it starts neither of them any more
  have hquiet : ∀ {s₁ : ClientState} {o : Op}, s₁.log = s.log →
      (s₁.econn k).sendCh = (s.econn k).sendCh →
      ((s₁.econn k).sendDone = (s.econn k).sendDone ∨ Silent s k) → .reader k ∉ o.starts →
      .sender k ∉ o.starts → Outflow strict k ⟨s₁, Function.update pool (.dial k) [o]⟩ := by
    intro s₁ o hlog hch hdone hnr hns
    refine h.still ?_ ?_ ?_ (by rw [hlog]; exact id) (fun _ ho => Or.inl (by simpa using ho))
      (by rw [hch]; exact id) fun hd => ?_
    · simp [pipe, hlog, hch]
    · rintro (hf | ⟨o', ho', hx⟩)
      · exact Or.inl (by simpa using hf)
      · simp only [Function.update_self, List.mem_singleton] at ho'
        exact absurd (ho' ▸ hx) hns
    · rintro (hf | ⟨o', ho', hx⟩)
      · exact Or.inl (by simpa using hf)
      · simp only [Function.update_self, List.mem_singleton] at ho'
        exact absurd (ho' ▸ hx) hnr
    · rcases hdone with hsame | hs
      · rw [← hsame]
        exact Or.inl hd
      · refine Or.inr ⟨hsaid.silent hpos hs, ?_⟩
        rintro (⟨o', ho', hr⟩ | ⟨o', ho', hx⟩)
        · rw [hnoReader hs o' (by simpa using ho')] at hr
          cases hr
        · simp only [Function.update_self, List.mem_singleton] at ho'
          exact absurd (ho' ▸ hx) hnr
  rcases hkind with rfl | ⟨dialed, rfl⟩ | rfl | rfl
  · have hnil : (s.econn k).sendCh.buf = [] := h.inv.buf_nil (hsaid.silent hpos hknows)
    simp only [exec, GoChan.recv, hnil] at hex
    split at hex
    · next hrecv =>
        split at hrecv <;> cases hrecv
        cases hex
        exact hquiet rfl (by simp) (Or.inl (by simp)) (by simp [Op.starts]) (by simp [Op.starts])
    · cases hex
      exact hquiet rfl rfl (Or.inl rfl) (by simp [Op.starts]) (by simp [Op.starts])
  · simp only [exec] at hex
    rw [closeCh_open (hopen dialed rfl)] at hex
    cases hex
    refine hquiet rfl (by simp) (Or.inr hknows) ?_ ?_
    · cases dialed <;> simp [Op.starts]
    · cases dialed <;> simp [Op.starts]
  · cases hex
    have hidle : pool (.reader k) = [] := hshape.idle _ _ hmem _ (by simp [Op.starts])
    refine h.still ?_ ?_ (fun _ => Or.inr ⟨_, hmem, by simp [Op.starts]⟩) id
      (fun _ ho => Or.inl (by simpa [Pool.spawn] using ho)) id Or.inl
    · simp [pipe, Pool.spawn, hidle, Op.pending]
    · rintro (hf | ⟨o, ho, hx⟩)
      · exact Or.inl (by simpa [Pool.spawn] using hf)
      · exact Or.inr ⟨_, hmem, by simp [Op.starts]⟩
  · cases hex
    have hidle : pool (.sender k) = [] := hshape.idle _ _ hmem _ (by simp [Op.starts])
    refine h.still ?_ (fun _ => Or.inr ⟨_, hmem, by simp [Op.starts]⟩) ?_ id ?_ id Or.inl
    · simp [pipe, Pool.spawn, hidle, Op.carried]
    · rintro (hf | ⟨o, ho, hx⟩)
      · exact Or.inl (by simpa [Pool.spawn] using hf)
      · simp [Pool.spawn] at ho
        simp [ho, Op.starts] at hx
    · simp [Pool.spawn, hidle]

/-- The `switch` of `Serve`. -/
theorem Outflow.exec_packet {pool : Tid → List Op} {pkt : Packet} (h : Outflow strict k ⟨s, pool⟩)
    (hsaid : Said s k) (hfresh : s.nextConnID < k →
      pool (.dial k) = [] ∧ pool (.reader k) = [] ∧ pool (.sender k) = [])
    (hex : exec s t c (.serve pkt) = some (s₁, ops, start)) :
    Outflow strict k ⟨s₁, Pool.spawn (Function.update pool .serve ops) start⟩ := by
  have hended : .remoteEnded k ∈ s₁.log → .remoteEnded k ∈ s.log :=
    fun he => (exec_ended hex he).resolve_right (by simp)
  have hpackets : packets k s₁.log = packets k s.log :=
    (exec_packets hex).elim (by rintro ⟨_, _, _, hop, _⟩; cases hop) fun hsame => hsame k
  have hchunks : chunks k s₁.log = chunks k s.log :=
    (exec_chunks hex).elim (by rintro ⟨_, _, hop, _⟩; cases hop) fun hsame => hsame k
  -- a packet that makes no connection
  have hsame : s₁.econn = s.econn → start = none →
      Outflow strict k ⟨s₁, Pool.spawn (Function.update pool .serve ops) start⟩ := by
    rintro hconn rfl
    refine h.still ?_ ?_ ?_ hended (fun o ho => Or.inl (by simpa [Pool.spawn] using ho))
      (by rw [hconn]; exact id) (by rw [hconn]; exact Or.inl)
    · simp [pipe, Pool.spawn, hchunks, sentData, hpackets, hconn]
    · simp [Flowing, Pool.spawn]
    · simp [Reads, Pool.spawn]
  simp only [exec, servePacket] at hex
  split at hex
  · split at hex
    · cases hex
      exact hsame rfl rfl
    · next req _ =>
        cases hex
        by_cases hkk : k = s.nextConnID + 1
        · subst hkk
          have hlt : s.nextConnID < s.nextConnID + 1 := Nat.lt_succ_self _
          obtain ⟨hd, hr, hs⟩ := hfresh hlt
          obtain ⟨hp, hc, hnot⟩ := hsaid.unused hlt
          refine ⟨⟨[], [], ?_, fun _ => ?_, fun _ => rfl⟩, fun he => absurd he hnot, ?_, ?_⟩
          · simp [pipe, Pool.spawn, sentData, hp, hc, hr, hs]
          · simp [pipe, Pool.spawn, hs]
          · simp [Pool.spawn, hs]
          · simp [Spent, Pool.spawn, hs]
        · have hkk' : s.nextConnID + 1 ≠ k := Ne.symm hkk
          refine h.still ?_ ?_ ?_ id (fun o ho => Or.inl (by simpa [Pool.spawn] using ho)) ?_ ?_
          · simp [pipe, Pool.spawn, hkk]
          · simp [Flowing, Pool.spawn, hkk]
          · simp [Reads, Pool.spawn, hkk]
          · simp [hkk]
          · simp only [ClientState.setConn_econn, Function.update_of_ne hkk]
            exact Or.inl
  · repeat' split at hex
    all_goals cases hex
    all_goals exact hsame rfl rfl
  · repeat' split at hex
    all_goals cases hex
    all_goals exact hsame rfl rfl
  · cases hex
    exact hsame rfl rfl

end Others

/-- The pipe of every connection in every run. -/
theorem agent_outflow {strict : Prop} {ok : State → System.Action Tid ClientAction Choice → Prop}
    {k : ConnID} (hpos : 0 < k) (hk : k < 2 ^ 64) (hok : strict → ∀ s a, ok s a → SendsData k s a)
    {xfrChannelSize fromServer toServer : Nat} {s : State}
    (h : Reach client.step ok (newAgentClient xfrChannelSize fromServer toServer) s)
    (hlt : s.shared.nextConnID < 2 ^ 64) : Outflow strict k s := by
  refine System.invariant_run (fun s => s.shared.nextConnID < 2 ^ 64 → Outflow strict k s)
    (fun _ => ?_) ?_ ?_ h hlt
  · refine ⟨⟨[], [], ?_, fun _ => ?_, fun _ => rfl⟩, ?_, ?_, ?_⟩
    · simp [pipe, newAgentClient, chunks, sentData, packets]
    · simp [pipe, newAgentClient]
    · simp [newAgentClient]
    · simp [newAgentClient]
    · simp [Spent, newAgentClient]
  · intro s t c op rest s₁ ops start hr hinv _ ht hok' hex hlt₁
    have hr' := System.reach_allowed hr
    have hshape := agent_shaped hr'
    obtain ⟨-, hA, hholds⟩ := agent_invariant hr'
    obtain rfl := hshape.rest_nil ht
    have hmem : op ∈ s.threads t := by
      rw [ht]
      exact List.mem_cons_self
    have htid : op.tid = t := hshape.own t op hmem
    have hown : ∀ x ∈ op.tokens, Pool.Held Op.tokens s.threads x := fun x hx => ⟨t, op, hmem, hx⟩
    have hnext := (hA.exec hown (hholds t op hmem) hex).change.next
    have hlt := Nat.lt_of_le_of_lt hnext hlt₁
    obtain ⟨hsaid, hall⟩ := agent_said hr' hlt
    have hout := hinv hlt
    have hex' : exec s.shared t c op = some (s₁, ops, start) := hex
    have hopen : (k, Right.send) ∈ op.tokens → (s.shared.econn k).sendDone.closed = false :=
      fun hin => (hA.conn k).send (hown _ hin)
    rw [List.append_nil]
    by_cases hserve : ∃ pkt, op = .serve pkt
    · obtain ⟨pkt, rfl⟩ := hserve
      obtain rfl : Tid.serve = t := htid
      exact hout.exec_packet (hsaid k hpos hk)
        (fun hgt => ⟨unused_idle hr' hgt, unused_idle hr' hgt, unused_idle hr' hgt⟩) hex'
    by_cases hflow : op.flow = some k
    · rcases flow_cases hflow with hkind | hkind | hkind | hkind
      · obtain rfl : .reader k = t := by
          rw [← htid]
          rcases hkind with rfl | ⟨b, rfl⟩ <;> rfl
        obtain ⟨rfl, hnew⟩ := hout.exec_reader ht hshape hkind hex'
        exact hnew
      · obtain rfl : .sender k = t := by
          rw [← htid]
          rcases hkind with rfl | rfl | rfl <;> rfl
        have hsend : (k, Right.send) ∈ op.tokens := by
          rcases hkind with rfl | rfl | rfl <;> exact List.mem_cons_self
        obtain ⟨rfl, hnew⟩ := hout.exec_sender ht hshape (hopen hsend) hkind hex'
        exact hnew
      · obtain rfl : .sender k = t := by
          rw [← htid]
          rcases hkind with ⟨_, rfl⟩ | ⟨_, _, rfl⟩ | rfl | ⟨_, rfl⟩ <;> rfl
        have hsend : (k, Right.send) ∈ op.tokens := by
          rcases hkind with ⟨_, rfl⟩ | ⟨_, _, rfl⟩ | rfl | ⟨_, rfl⟩ <;> exact List.mem_cons_self
        have hsends : strict → ∀ pkt b, op = .streamSend pkt (.data k) b → c.send = .ok := by
          intro hs pkt b heq
          refine hok hs s _ hok' op ?_ ?_
          · rw [ht]
            rfl
          · rw [heq]
            exact beq_self_eq_true k
        obtain ⟨rfl, hnew⟩ := hout.exec_send ht hshape (hopen hsend)
            (hall _ op hmem) hsends hkind hex'
        exact hnew
      · obtain rfl : .dial k = t := by
          rw [← htid]
          rcases hkind with rfl | ⟨_, rfl⟩ | rfl | rfl <;> rfl
        refine hout.exec_dial hshape ht hpos (hsaid k hpos hk) hall
          (fun dialed heq => hopen ?_) hkind hex'
        rw [heq]
        cases dialed <;> simp [Op.tokens]
    · exact hout.exec_other hshape ht hflow (fun pkt heq => hserve ⟨pkt, heq⟩) hpos hk
        (hall t op hmem) (fun x hx => Nat.lt_of_le_of_lt (hA.made (r := x.2) (hown x hx)) hlt) hex'
  · intro s a s₁ start threads hr hinv _ _ harr hthreads hlt₁
    have hsame : s₁.log = s.shared.log ∧ s₁.econn = s.shared.econn ∧
        s₁.nextConnID = s.shared.nextConnID ∧ ∀ t ops, start = some (t, ops) → t = .drain := by
      cases a <;> simp only [client, arrive] at harr <;> repeat' split at harr
      all_goals cases harr
      all_goals simp
    obtain ⟨h1, h2, h3, h4⟩ := hsame
    have hother : ∀ t, t ≠ .drain → threads t = s.threads t := by
      intro t ht
      cases start with
      | none => rw [show threads = s.threads from hthreads]
      | some st =>
          obtain ⟨-, rfl⟩ := hthreads
          exact Function.update_of_ne (by rw [h4 st.1 st.2 rfl]; exact ht) _ _
    have hreader := hother (.reader k) (by simp)
    have hsender := hother (.sender k) (by simp)
    have hdial := hother (.dial k) (by simp)
    refine (hinv (h3 ▸ hlt₁)).still ?_ ?_ ?_ (by rw [h1]; exact id)
      (fun o ho => Or.inl (by simpa [hsender] using ho)) (by rw [h2]; exact id)
      (by rw [h2]; exact Or.inl)
    · simp [pipe, h1, h2, hreader, hsender]
    · simp [Flowing, hsender, hdial]
    · simp [Reads, hreader, hdial]

/-! ## Results -/

/-- The packets of a connection are a `DIAL_RSP`, `DATA` and a `CLOSE_RSP`, in
this order and any of them possibly missing; there is no `DATA` without the
`DIAL_RSP`, and the payloads are the first of the reads from the remote. -/
theorem remote_stream_faithful {xfrChannelSize fromServer toServer : Nat} {s : State}
    (h : Reach client.step anyStep (newAgentClient xfrChannelSize fromServer toServer) s)
    (hlt : s.shared.nextConnID < 2 ^ 64) {k : ConnID} (hpos : 0 < k) (hk : k < 2 ^ 64) :
    ∃ opened data closed,
      packets k s.shared.log = transcript k (s.shared.econn k).random opened data closed ∧
      (opened = false → data = []) ∧ data <+: chunks k s.shared.log := by
  obtain ⟨hsaid, -⟩ := agent_said (System.reach_allowed h) hlt
  obtain ⟨opened, data, closed, hshape, hopened, -⟩ := (hsaid k hpos hk).shape
  have hout : Outflow False k s := agent_outflow hpos hk False.elim h hlt
  refine ⟨opened, data, closed, hshape, fun ho => (hopened ho).1, ?_⟩
  have hdata : sentData k s.shared.log = data := by
    rw [sentData, hshape, payloads_transcript]
  rw [← hdata]
  exact hout.inv.sent_prefix

/-- The remote sends five bytes in two parts and ends the connection. -/
def endedRun : List (System.Action Tid ClientAction Choice) :=
  let dialReq : Packet := .ofDialRequest { protocol := "tcp", address := "a:1", random := 7 }
  List.flatten
    [[.arrive (.deliver dialReq)], List.replicate 3 (.run .serve {}),
      List.replicate 9 (.run (.dial 1) {}),
      List.replicate 2 (.run (.reader 1) { read := .data [1, 2] }),
      List.replicate 2 (.run (.reader 1) { read := .data [3, 4, 5] }),
      List.replicate 4 (.run (.sender 1) {}), List.replicate 4 (.run (.reader 1) {}),
      List.replicate 7 (.run (.sender 1) {}), List.replicate 3 (.run (.reader 1) {})]

theorem remote_stream_faithful_read :
    ∃ s : State, Reach client.step anyStep (newAgentClient 2 1 8) s ∧
      (∃ opened data closed,
        packets 1 s.shared.log = transcript 1 (s.shared.econn 1).random opened data closed ∧
        (opened = false → data = []) ∧ data <+: chunks 1 s.shared.log) ∧
      chunks 1 s.shared.log = [[1, 2], [3, 4, 5]] := by
  obtain ⟨s, hs, hend⟩ : ∃ s : State, run client.step (newAgentClient 2 1 8) endedRun = some s ∧
      decide (s.shared.nextConnID = 1 ∧ chunks 1 s.shared.log = [[1, 2], [3, 4, 5]]) = true :=
    run_any (by decide)
  obtain ⟨hnext, hchunks⟩ := of_decide_eq_true hend
  have hr := reach_of_run_any hs
  exact ⟨s, hr, remote_stream_faithful hr (by rw [hnext]; decide) (by decide) (by decide), hchunks⟩

/-- Once the remote has ended a connection and `sendDone` is closed, nothing is
under way. -/
theorem agent_sends_all {k : ConnID} (hpos : 0 < k) (hk : k < 2 ^ 64)
    {xfrChannelSize fromServer toServer : Nat} {s : State}
    (h : Reach client.step (SendsData k) (newAgentClient xfrChannelSize fromServer toServer) s)
    (hlt : s.shared.nextConnID < 2 ^ 64) (hended : .remoteEnded k ∈ s.shared.log)
    (hsendDone : (s.shared.econn k).sendDone.closed = true) :
    sentData k s.shared.log = chunks k s.shared.log := by
  have hr := System.reach_allowed h
  obtain ⟨-, hA, -⟩ := agent_invariant hr
  have hshape := agent_shaped hr
  have hout : Outflow True k s := agent_outflow hpos hk (fun _ _ _ => id) h hlt
  have hreads := hout.ended hended
  have hpend : (pipe k s).pend = [] := by
    refine List.flatMap_eq_nil_iff.mpr fun o ho => Op.pending_nil
      (Bool.eq_false_iff.mpr fun hr => ?_)
    exact hreads (Or.inl ⟨o, ho, hr⟩)
  have hhand : (pipe k s).hand = [] := by
    refine List.flatMap_eq_nil_iff.mpr fun o ho => ?_
    by_contra hne
    have hopen := (hA.conn k).send ⟨_, o, ho, carried_tokens hne (hshape.own _ o ho)⟩
    rw [show (view s.shared k).sendDone = true from hsendDone] at hopen
    cases hopen
  have hbuf : (pipe k s).buf = [] := by
    rcases hout.spent trivial (Or.inr hsendDone) with ⟨hnil, -⟩ | ⟨-, hnil⟩
    · exact hout.inv.buf_nil hnil
    · exact hnil
  exact hout.inv.complete (Or.inl trivial) (Or.inr hended) hhand hbuf hpend

/-- Where the remote has ended a connection and no `Send` of its data fails,
everything that was read has been sent when the `CLOSE_RSP` is. -/
theorem remote_stream_complete {k : ConnID} (hpos : 0 < k) (hk : k < 2 ^ 64)
    {xfrChannelSize fromServer toServer : Nat} {s : State}
    (h : Reach client.step (SendsData k) (newAgentClient xfrChannelSize fromServer toServer) s)
    (hlt : s.shared.nextConnID < 2 ^ 64) (hended : .remoteEnded k ∈ s.shared.log)
    (hclosed : closePkt k (s.shared.econn k).random ∈ packets k s.shared.log) :
    packets k s.shared.log =
      transcript k (s.shared.econn k).random true (chunks k s.shared.log) true := by
  obtain ⟨hsaid, -⟩ := agent_said (System.reach_allowed h) hlt
  obtain ⟨opened, data, closed, hpackets, hopened, hdone⟩ := (hsaid k hpos hk).shape
  have hw := ConnID.wire_ne_zero hk hpos
  obtain rfl : closed = true := by
    rw [hpackets, closePkt_mem_transcript hw] at hclosed
    exact hclosed
  obtain rfl : opened = true := by
    by_contra hne
    exact (hopened (Bool.eq_false_iff.mpr hne)).2.2 hended
  have hdata : sentData k s.shared.log = data := by
    rw [sentData, hpackets, payloads_transcript]
  rw [hpackets, ← hdata, agent_sends_all hpos hk h hlt hended (hdone rfl).2.1]

theorem remote_stream_complete_read :
    ∃ s : State, Reach client.step (SendsData 1) (newAgentClient 2 1 8) s ∧
      packets 1 s.shared.log = transcript 1 7 true [[1, 2], [3, 4, 5]] true := by
  obtain ⟨s, hs, hend⟩ : ∃ s : State, run client.step (newAgentClient 2 1 8) endedRun = some s ∧
      decide (s.shared.nextConnID = 1 ∧ chunks 1 s.shared.log = [[1, 2], [3, 4, 5]] ∧
        (s.shared.econn 1).random = 7 ∧ Event.remoteEnded 1 ∈ s.shared.log ∧
        closePkt 1 7 ∈ packets 1 s.shared.log) = true :=
    run_any (by decide)
  obtain ⟨hnext, hchunks, hrandom, hended, hclosed⟩ := of_decide_eq_true hend
  have hr : Reach client.step (SendsData 1) (newAgentClient 2 1 8) s := reach_of_run hs (by decide)
  have hall := remote_stream_complete (k := 1) (by decide) (by decide) hr
    (by rw [hnext]; decide) hended (by rw [hrandom]; exact hclosed)
  rw [hchunks, hrandom] at hall
  exact ⟨s, hr, hall⟩

end Konnectivity.Agent.Client
