import Konnectivity.Proofs.Handover

/-!
# The byte stream of a connection

From the packets `serve` looks a connection up for to the bytes `Read`
returns there are three places a payload can be: in the hands of `serve`, in
`readCh`, and in `rdata`. The invariant says that what was returned, followed
by what lies in these places, is what was received, as long as no payload was
given up. A payload that is given up because of the timeout is the last one,
since `serve` leaves its loop.

Two steps of the code break this. The `select` that delivers a payload may see
the tunnel's context end, and then goes on with the next packet; and `Read`
takes an empty payload for the end of the stream.
-/

namespace Konnectivity.Client

open Lib

/-! ## What was received, put and read -/

/-- The packets `serve` received for a connection it found registered, oldest first. -/
abbrev Found := List (DialID × Packet)

/-- `conns.get` finds the connection of a `DATA` packet. -/
def noteFound (s : TunnelState) (_ : Tid) (op : Op) (_ : TunnelState) (found : Found) : Found :=
  match op with
  | .connsGet connID (.data pkt _) =>
      match s.conns.lookup connID with
      | none => found
      | some r => found ++ [(r, pkt)]
  | _ => found

/-- The tunnel, with a record of what it received for its connections. -/
def recordedTunnel : System (TunnelState × Found) Tid Op TunnelAction Choice :=
  tunnel.measured noteFound

def newRecordedTunnel : System.State (TunnelState × Found) Tid Op := ⟨({}, []), fun _ => []⟩

def foundFor (r : DialID) (found : Found) : List Packet :=
  (found.filter fun x => x.1 = r).map fun x => x.2

/-- The payload of a `DATA` packet. -/
def payloadOf (pkt : Packet) : Bytes := (pkt.getData.map fun d => d.data).getD []

def Event.puts (r : DialID) : Event → Option Packet
  | .delivered r' pkt => if r' = r ∧ pkt.type = .data then some pkt else none
  | _ => none

def Event.bytes (r : DialID) : Event → Bytes
  | .readReturned r' (some data) => if r' = r then data else []
  | _ => []

/-- The `DATA` packets put into `readCh`. -/
def putInto (r : DialID) (log : List Event) : List Packet := log.reverse.filterMap (Event.puts r)

/-- The bytes `Read` has returned. -/
def readBytes (r : DialID) (log : List Event) : Bytes := log.reverse.flatMap (Event.bytes r)

/-- `io.EOF` is returned by a `Read` of a connection that was closed. -/
def Event.EndsClosed (r : DialID) (e : Event) (earlier : List Event) : Prop :=
  e = .readReturned r none → .readClosed r ∈ earlier

theorem putInto_cons (r : DialID) (e : Event) (log : List Event) :
    putInto r (e :: log) = putInto r log ++ (e.puts r).toList := by
  unfold putInto
  rw [List.reverse_cons, List.filterMap_append]
  cases h : e.puts r <;> simp [h]

theorem readBytes_cons (r : DialID) (e : Event) (log : List Event) :
    readBytes r (e :: log) = readBytes r log ++ e.bytes r := by
  unfold readBytes
  rw [List.reverse_cons, List.flatMap_append]
  simp

/-- The event says nothing of the stream. -/
structure Event.Silent (r : DialID) (e : Event) : Prop where
  puts : e.puts r = none
  bytes : e.bytes r = []
  eof : e ≠ .readReturned r none

theorem silent_log {r : DialID} (log : List Event) : ∀ {es : List Event},
    (∀ e ∈ es, e.Silent r) → putInto r (es ++ log) = putInto r log ∧
      readBytes r (es ++ log) = readBytes r log ∧
      (Pool.Each (Event.EndsClosed r) log → Pool.Each (Event.EndsClosed r) (es ++ log)) := by
  intro es
  induction es with
  | nil => exact fun _ => ⟨rfl, rfl, id⟩
  | cons e es ih =>
      intro hes
      have he := hes e List.mem_cons_self
      obtain ⟨hput, hread, heof⟩ := ih fun e' he' => hes e' (List.mem_cons_of_mem _ he')
      refine ⟨?_, ?_, fun h => ⟨fun hx => absurd hx he.eof, heof h⟩⟩
      · rw [List.cons_append, putInto_cons, he.puts, hput]
        exact List.append_nil _
      · rw [List.cons_append, readBytes_cons, he.bytes, hread, List.append_nil]

/-! ## Packets and their payloads -/

/-- An operation carries the payload of its packet. -/
def Op.Labelled : Op → Prop
  | .connsGet _ (.data pkt data) => pkt.type = .data ∧ payloadOf pkt = data
  | .sendReadCh _ pkt data => pkt.type = .data ∧ payloadOf pkt = data
  | .connsGet _ (.closeRsp pkt _) => pkt.type ≠ .data
  | .sendCloseCh _ pkt _ => pkt.type ≠ .data
  | _ => True

/-- The packet an operation is about to put into `readCh`. -/
def Op.sends (r : DialID) : Op → Option Packet
  | .sendReadCh r' pkt _ => if r' = r then some pkt else none
  | _ => none

/-- What `serve` has in hand for the connection. -/
def inHand (r : DialID) (ops : List Op) : List Packet := ops.filterMap (Op.sends r)

theorem inHand_append (r : DialID) (ops rest : List Op) :
    inHand r (ops ++ rest) = inHand r ops ++ inHand r rest :=
  List.filterMap_append ..

/-- An operation of a kind that comes from a look-up, or one of the others. -/
def Op.plain : Op → Bool
  | .connsGet _ _ | .sendReadCh _ _ _ | .sendCloseCh _ _ _ => false
  | _ => true

theorem plain_labelled {ops : List Op} (h : ops.all Op.plain = true) : ∀ o ∈ ops, o.Labelled := by
  intro o ho
  have hp := List.all_eq_true.mp h o ho
  cases o with
  | connsGet cid k => cases hp
  | sendReadCh r pkt data => cases hp
  | sendCloseCh r pkt error => cases hp
  | _ => trivial

theorem plain_inHand {ops : List Op} (h : ops.all Op.plain = true) (r : DialID) :
    inHand r ops = [] := by
  refine List.filterMap_eq_nil_iff.mpr fun o ho => ?_
  have hp := List.all_eq_true.mp h o ho
  cases o with
  | sendReadCh r pkt data => cases hp
  | _ => rfl

section Exec

variable {s s₁ : TunnelState} {t : Tid} {c : Choice} {op : Op} {ops : List Op}
  {start : Option (Tid × List Op)}

theorem serve_labelled {pkt : Packet} (h : serve pkt = some ops) (r : DialID) :
    (∀ o ∈ ops, o.Labelled) ∧ inHand r ops = [] := by
  have hplain : ∀ {l : List Op}, l.all Op.plain = true →
      (∀ o ∈ l, o.Labelled) ∧ inHand r l = [] :=
    fun hl => ⟨plain_labelled hl, plain_inHand hl r⟩
  unfold serve at h
  split at h
  · obtain ⟨resp, -, rfl⟩ := Option.map_eq_some_iff.mp h
    exact hplain rfl
  · obtain ⟨resp, -, rfl⟩ := Option.map_eq_some_iff.mp h
    exact hplain rfl
  · next htype =>
      obtain ⟨resp, hpay, rfl⟩ := Option.map_eq_some_iff.mp h
      split
      · exact hplain rfl
      · refine ⟨fun o ho => ?_, rfl⟩
        rw [List.mem_singleton.mp ho]
        exact ⟨htype, by rw [payloadOf, hpay]; rfl⟩
  · next htype =>
      obtain ⟨resp, -, rfl⟩ := Option.map_eq_some_iff.mp h
      refine ⟨fun o ho => ?_, rfl⟩
      rw [List.mem_singleton.mp ho]
      show pkt.type ≠ .data
      rw [htype]
      exact fun hx => nomatch hx
  · cases h
    exact hplain rfl

/-- What an operation leaves to do, a look-up apart, puts nothing into `readCh`. -/
theorem exec_ops (hop : op.Labelled) (hex : exec s t c op = some (s₁, ops, start)) :
    (∀ o ∈ ops, o.Labelled) ∧
      ((∀ cid pkt data, op ≠ .connsGet cid (.data pkt data)) → ∀ r, inHand r ops = []) := by
  have hplain : ∀ {l : List Op}, l.all Op.plain = true → (∀ o ∈ l, o.Labelled) ∧
      ((∀ cid pkt data, op ≠ .connsGet cid (.data pkt data)) → ∀ r, inHand r l = []) :=
    fun hl => ⟨plain_labelled hl, fun _ => plain_inHand hl⟩
  cases op with
  | dispatch pkt =>
      simp only [exec] at hex
      split at hex
      · cases hex
        exact hplain rfl
      · split at hex <;> cases hex
        · exact hplain rfl
        · next hs => exact ⟨(serve_labelled hs 0).1, fun _ r => (serve_labelled hs r).2⟩
  | connsGet cid k =>
      simp only [exec] at hex
      cases hex
      cases k with
      | data pkt data =>
          refine ⟨fun o ho => ?_, fun h => absurd rfl (h cid pkt data)⟩
          cases hl : s.conns.lookup cid with
          | none =>
              rw [hl] at ho
              rw [List.mem_singleton.mp ho]
              trivial
          | some r =>
              rw [hl] at ho
              rw [List.mem_singleton.mp ho]
              exact hop
      | closeRsp pkt error =>
          cases hl : s.conns.lookup cid with
          | none => exact hplain rfl
          | some r =>
              refine ⟨fun o ho => ?_, fun _ _ => rfl⟩
              simp only [AfterGet.next, serveExit, List.cons_append, List.nil_append,
                List.mem_cons, List.not_mem_nil, or_false] at ho
              rcases ho with rfl | rfl | rfl | rfl | rfl | rfl | rfl
              · trivial
              · exact hop
              all_goals trivial
  | awaitTaken r res =>
      simp only [exec] at hex
      obtain ⟨⟨s', ops'⟩, haw, heq⟩ := Option.map_eq_some_iff.mp hex
      cases heq
      unfold TunnelState.awaitTaken at haw
      repeat' split at haw
      all_goals cases haw
      all_goals exact hplain rfl
  | sendReadCh r pkt data =>
      simp only [exec] at hex
      obtain ⟨⟨s', ops'⟩, hsend, heq⟩ := Option.map_eq_some_iff.mp hex
      cases heq
      unfold TunnelState.sendReadCh at hsend
      repeat' split at hsend
      all_goals cases hsend
      all_goals exact hplain rfl
  | awaitResult r =>
      simp only [exec] at hex
      unfold TunnelState.awaitResult at hex
      repeat' split at hex
      all_goals cases hex
      · next res _ _ => exact hplain (by unfold DialResult.next; split <;> rfl)
      all_goals exact hplain rfl
  | send pkt k =>
      simp only [exec] at hex
      cases hex
      exact hplain (by cases k <;> cases c.ok <;> rfl)
  | _ =>
      simp only [exec] at hex
      repeat' split at hex
      all_goals cases hex
      all_goals exact hplain rfl

/-- The goroutines that are started look nothing up. -/
theorem exec_started {t' : Tid} {ops' : List Op}
    (hex : exec s t c op = some (s₁, ops, some (t', ops'))) : ops'.all Op.plain = true := by
  cases op with
  | send pkt k =>
      simp only [exec] at hex
      unfold AfterSend.next at hex
      split at hex <;> cases hex
      rfl
  | sendReadCh r pkt data =>
      simp only [exec] at hex
      obtain ⟨x, -, heq⟩ := Option.map_eq_some_iff.mp hex
      cases heq
  | awaitTaken r res =>
      simp only [exec] at hex
      obtain ⟨x, -, heq⟩ := Option.map_eq_some_iff.mp hex
      cases heq
  | awaitResult r =>
      simp only [exec] at hex
      unfold TunnelState.awaitResult at hex
      repeat' split at hex
      all_goals cases hex
      all_goals rfl
  | _ =>
      simp only [exec] at hex
      repeat' split at hex
      all_goals cases hex

/-! ## The steps that leave the stream alone -/

/-- The bytes on their way to the reader of the connection stay as they are. -/
structure Kept (r : DialID) (s s₁ : TunnelState) : Prop where
  buf : (s₁.conn r).readCh.buf = (s.conn r).readCh.buf
  rdata : (s₁.conn r).rdata = (s.conn r).rdata
  closed : (s₁.conn r).readCh.closed = true →
    (s.conn r).readCh.closed = true ∨ .readClosed r ∈ s₁.log
  returned : (s₁.conn r).returned = true →
    (s.conn r).returned = true ∨ ∃ cid, .registered cid r ∈ s₁.log
  log : ∃ es, s₁.log = es ++ s.log ∧ ∀ e ∈ es, e.Silent r

variable {r : DialID}

theorem Kept.of_conn (es : List Event) (hconn : s₁.conn r = s.conn r)
    (hlog : s₁.log = es ++ s.log) (hes : ∀ e ∈ es, e.Silent r) : Kept r s s₁ where
  buf := by rw [hconn]
  rdata := by rw [hconn]
  closed := fun h => Or.inl (hconn ▸ h)
  returned := fun h => Or.inl (hconn ▸ h)
  log := ⟨es, hlog, hes⟩

theorem Kept.refl (r : DialID) (s : TunnelState) : Kept r s s :=
  .of_conn [] rfl rfl fun _ h => nomatch h

theorem Kept.trans {s₂ : TunnelState} (h : Kept r s s₁) (h' : Kept r s₁ s₂) : Kept r s s₂ := by
  obtain ⟨es, hlog, hes⟩ := h.log
  obtain ⟨es', hlog', hes'⟩ := h'.log
  have hsub : s₁.log ⊆ s₂.log := by
    rw [hlog']
    exact List.subset_append_right _ _
  refine ⟨h'.buf.trans h.buf, h'.rdata.trans h.rdata, fun hc => ?_, fun hc => ?_,
    es' ++ es, by rw [hlog', hlog, List.append_assoc], fun e he => ?_⟩
  · rcases h'.closed hc with hc | hc
    · exact (h.closed hc).imp_right fun hm => hsub hm
    · exact Or.inr hc
  · rcases h'.returned hc with hc | hc
    · exact (h.returned hc).imp_right fun ⟨cid, hm⟩ => ⟨cid, hsub hm⟩
    · exact Or.inr hc
  · rcases List.mem_append.mp he with he | he
    · exact hes' e he
    · exact hes e he

theorem Kept.closeReadCh (r r' : DialID) (s : TunnelState) : Kept r s (s.closeReadCh r') := by
  have hsilent : ∀ e ∈ [Event.readClosed r'], e.Silent r := by
    intro e he
    rw [List.mem_singleton.mp he]
    exact ⟨rfl, rfl, fun hx => nomatch hx⟩
  have hlog := (closeReadCh_frame s r').2.2.2.2
  by_cases hr : r = r'
  · subst hr
    unfold TunnelState.closeReadCh at hlog ⊢
    split
    · exact .of_conn [_] rfl rfl hsilent
    · next ch hch =>
        have hbuf : ch.buf = (s.conn r).readCh.buf := by
          unfold GoChan.close at hch
          split at hch <;> cases hch
          rfl
        refine ⟨?_, ?_, fun _ => Or.inr List.mem_cons_self, fun h => Or.inl ?_, [_], rfl, hsilent⟩
        · rw [TunnelState.setConn_conn, Function.update_self]
          exact hbuf
        · rw [TunnelState.setConn_conn, Function.update_self]
        · rw [TunnelState.setConn_conn, Function.update_self] at h
          exact h
  · exact .of_conn [_] (closeReadCh_other s hr) hlog hsilent

theorem Kept.closeAll (r : DialID) (rs : List DialID) (s : TunnelState) :
    Kept r s (rs.foldl TunnelState.closeReadCh s) := by
  induction rs generalizing s with
  | nil => exact .refl r s
  | cons r' rs ih => exact (Kept.closeReadCh r r' s).trans (ih _)

/-- Every operation leaves the stream alone that neither delivers to the
connection nor registers it. -/
theorem exec_kept (hop : op.Labelled) (hsend : ∀ pkt data, op ≠ .sendReadCh r pkt data)
    (hadd : ∀ cid, op ≠ .connsAdd cid r)
    (hret : ∀ cid, op = .dialReturn r (.conn cid) → .registered cid r ∈ s.log)
    (hex : exec s t c op = some (s₁, ops, start)) : Kept r s s₁ := by
  have one : ∀ {e : Event} {s' : TunnelState}, s'.conn r = s.conn r → s'.log = e :: s.log →
      e.Silent r → Kept r s s' :=
    fun hconn hlog he => .of_conn [_] hconn hlog fun e' he' =>
      List.mem_singleton.mp he' ▸ he
  have quiet : ∀ {s' : TunnelState}, s'.conn r = s.conn r → s'.log = s.log → Kept r s s' :=
    fun hconn hlog => .of_conn [] hconn hlog fun _ h => by cases h
  have set : ∀ (es : List Event) {r' : DialID} {x : Conn} {s' : TunnelState},
      s'.conn = Function.update s.conn r' x → x.readCh = (s.conn r').readCh →
      x.rdata = (s.conn r').rdata → x.returned = (s.conn r').returned → s'.log = es ++ s.log →
      (∀ e ∈ es, e.Silent r) → Kept r s s' := by
    intro es r' x s' hconn hread hrdata hreturned hlog hes
    have hsame : (s'.conn r).readCh = (s.conn r).readCh ∧ (s'.conn r).rdata = (s.conn r).rdata ∧
        (s'.conn r).returned = (s.conn r).returned := by
      rw [hconn]
      by_cases hr : r = r'
      · subst hr
        rw [Function.update_self]
        exact ⟨hread, hrdata, hreturned⟩
      · rw [Function.update_of_ne hr]
        exact ⟨rfl, rfl, rfl⟩
    exact ⟨by rw [hsame.1], hsame.2.1, fun h => Or.inl (hsame.1 ▸ h),
      fun h => Or.inl (hsame.2.2 ▸ h), es, hlog, hes⟩
  cases op with
  | sendReadCh r' pkt data =>
      have hr : r ≠ r' := fun h => hsend pkt data (by rw [h])
      simp only [exec] at hex
      obtain ⟨⟨s', ops'⟩, hs, heq⟩ := Option.map_eq_some_iff.mp hex
      cases heq
      unfold TunnelState.sendReadCh at hs
      repeat' split at hs
      all_goals cases hs
      · exact quiet rfl rfl
      · refine one (Function.update_of_ne hr _ _) rfl ⟨?_, rfl, fun hx => by cases hx⟩
        exact if_neg fun h => hr h.1.symm
      all_goals exact quiet rfl rfl
  | awaitTaken r' res =>
      simp only [exec] at hex
      obtain ⟨⟨s', ops'⟩, haw, heq⟩ := Option.map_eq_some_iff.mp hex
      cases heq
      unfold TunnelState.awaitTaken at haw
      repeat' split at haw
      all_goals cases haw
      all_goals exact quiet rfl rfl
  | awaitResult r' =>
      simp only [exec] at hex
      unfold TunnelState.awaitResult at hex
      repeat' split at hex
      all_goals cases hex
      · exact one rfl rfl ⟨rfl, rfl, fun hx => by cases hx⟩
      all_goals exact quiet rfl rfl
  | closeReadCh r' =>
      simp only [exec] at hex
      cases hex
      exact .closeReadCh r r' s
  | closeAll =>
      simp only [exec] at hex
      cases hex
      exact .closeAll r _ s
  | sendCloseCh r' pkt error =>
      simp only [exec] at hex
      repeat' split at hex
      all_goals cases hex
      · exact quiet rfl rfl
      · refine set [_] rfl rfl rfl rfl rfl fun e he => ?_
        rw [List.mem_singleton.mp he]
        exact ⟨if_neg fun h => hop h.2, rfl, fun hx => by cases hx⟩
  | closeCloseCh r' =>
      simp only [exec] at hex
      split at hex <;> cases hex
      · exact quiet rfl rfl
      · exact set [] rfl rfl rfl rfl rfl fun _ h => by cases h
  | send pkt k =>
      simp only [exec] at hex
      cases hex
      exact one rfl rfl ⟨rfl, rfl, fun hx => by cases hx⟩
  | connsAdd cid r' =>
      have hr : r ≠ r' := fun h => hadd cid (by rw [h])
      simp only [exec] at hex
      cases hex
      exact one (Function.update_of_ne hr _ _) rfl ⟨rfl, rfl, fun hx => by cases hx⟩
  | dialReturn r' ret =>
      simp only [exec] at hex
      split at hex <;> cases hex
      · next cid =>
          by_cases hr : r = r'
          · subst hr
            refine ⟨?_, ?_, fun h => Or.inl ?_, fun _ => Or.inr ⟨cid, ?_⟩, [_], rfl, fun e he => ?_⟩
            · rw [TunnelState.setConn_conn, Function.update_self]
            · rw [TunnelState.setConn_conn, Function.update_self]
            · rw [TunnelState.setConn_conn, Function.update_self] at h
              exact h
            · exact List.mem_cons_of_mem _ (hret cid rfl)
            · rw [List.mem_singleton.mp he]
              exact ⟨rfl, rfl, fun hx => by cases hx⟩
          · exact one (Function.update_of_ne hr _ _) rfl ⟨rfl, rfl, fun hx => by cases hx⟩
      · exact one rfl rfl ⟨rfl, rfl, fun hx => by cases hx⟩
  | connClose r' =>
      simp only [exec] at hex
      split at hex <;> cases hex
      · exact quiet rfl rfl
      · exact set [] rfl rfl rfl rfl rfl fun _ h => by cases h
  | awaitClose r' =>
      simp only [exec] at hex
      repeat' split at hex
      all_goals cases hex
      · exact set [] rfl rfl rfl rfl rfl fun _ h => by cases h
      all_goals exact quiet rfl rfl
  | _ =>
      simp only [exec] at hex
      repeat' split at hex
      all_goals cases hex
      all_goals exact quiet rfl rfl

end Exec

/-! ## The invariant -/

/-- The payload that is delivered is not empty, and the `select` that delivers
it does not see the tunnel's context end. -/
def Intact (_ : TunnelState) (_ : Tid) (c : Choice) : Op → Prop
  | .sendReadCh _ _ data => data ≠ [] ∧ c.case ≠ .ctxDone
  | _ => True

structure ByteInv (r : DialID) (s : System.State (TunnelState × Found) Tid Op) : Prop where
  /-- What was received was put, is in hand, or was given up for good. -/
  taken : ∃ lost, foundFor r s.shared.2 =
      putInto r s.shared.1.log ++ inHand r (s.threads .serve) ++ lost ∧
    (lost ≠ [] → Stopping (core (s.threads .serve)) ∨ s.shared.1.done = true)
  /-- What was put was read, or is on its way to the reader. -/
  bytes : (putInto r s.shared.1.log).flatMap payloadOf = readBytes r s.shared.1.log ++
    (s.shared.1.conn r).rdata ++ (s.shared.1.conn r).readCh.buf.flatten
  nonempty : ∀ data ∈ (s.shared.1.conn r).readCh.buf, data ≠ []
  closed : (s.shared.1.conn r).readCh.closed = true → .readClosed r ∈ s.shared.1.log
  eof : Pool.Each (Event.EndsClosed r) s.shared.1.log
  fresh : (∀ cid, .registered cid r ∉ s.shared.1.log) → foundFor r s.shared.2 = [] ∧
    (s.shared.1.conn r).readCh.buf = [] ∧ (s.shared.1.conn r).rdata = [] ∧
    (s.shared.1.conn r).returned = false

section Steps

variable {r : DialID} {s : System.State (TunnelState × Found) Tid Op} {s₁ : TunnelState × Found}
  {t : Tid} {c : Choice} {op : Op} {ops rest : List Op} {start : Option (Tid × List Op)}
  {threads : Tid → List Op}

/-- A step that leaves the stream alone, with what it does to the packets. -/
theorem ByteInv.keep (h : ByteInv r s) (hk : Kept r s.shared.1 s₁.1)
    (hfresh : (∀ cid, .registered cid r ∉ s.shared.1.log) → foundFor r s₁.2 = [])
    (htaken : ∃ lost, foundFor r s₁.2 =
        putInto r s.shared.1.log ++ inHand r (threads .serve) ++ lost ∧
      (lost ≠ [] → Stopping (core (threads .serve)) ∨ s₁.1.done = true)) :
    ByteInv r ⟨s₁, threads⟩ := by
  obtain ⟨es, hlog, hes⟩ := hk.log
  obtain ⟨hput, hread, heof⟩ := silent_log s.shared.1.log hes
  have hsub : s.shared.1.log ⊆ s₁.1.log := by
    rw [hlog]
    exact List.subset_append_right _ _
  refine ⟨?_, ?_, ?_, fun hc => ?_, ?_, fun hnone => ?_⟩
  · dsimp only
    rw [hlog, hput]
    exact htaken
  · dsimp only
    rw [hlog, hput, hread, hk.rdata, hk.buf]
    exact h.bytes
  · dsimp only
    rw [hk.buf]
    exact h.nonempty
  · rcases hk.closed hc with hc | hc
    · exact hsub (h.closed hc)
    · exact hc
  · dsimp only
    rw [hlog]
    exact heof h.eof
  · have hold : ∀ cid, .registered cid r ∉ s.shared.1.log := fun cid hm => hnone cid (hsub hm)
    obtain ⟨-, hbuf, hrdata, hret⟩ := h.fresh hold
    refine ⟨hfresh hold, hk.buf.trans hbuf, hk.rdata.trans hrdata, Bool.eq_false_iff.mpr ?_⟩
    intro hx
    rcases hk.returned hx with hx | ⟨cid, hm⟩
    · rw [hret] at hx
      cases hx
    · exact hnone cid hm

/-- `serve` goes on stopping. -/
theorem Stopping.exec {s : System.State TunnelState Tid Op} {s₁ : TunnelState} (hT : TunnelInv s)
    (ht : s.threads .serve = op :: rest)
    (hex : Konnectivity.Client.exec s.shared .serve c op = some (s₁, ops, start))
    (h : Stopping (core (s.threads .serve)) ∨ s.shared.done = true) :
    Stopping (core (ops ++ rest)) ∨ s₁.done = true := by
  have hdone := exec_done hex
  cases hm : op.isMetric with
  | true =>
      have hcore : core (ops ++ rest) = core (s.threads .serve) := by
        rw [core_append, core_metric (exec_metric hm hex).2.1, ht]
        simp [core, hm]
      rw [hcore, hdone]
      exact h.imp_right fun hd => by rw [hd]; rfl
  | false =>
      rw [ht, core_cons hm] at h
      rcases h with (h | h) | h
      · injection h with hop hrest
        subst hop
        simp only [Konnectivity.Client.exec] at hex
        cases hex
        exact Or.inl (Or.inr hrest)
      · injection h with hop hrest
        subst hop
        exact Or.inr (by rw [hdone]; simp)
      · have hidle := hT.done h
        rw [ht, core_cons hm] at hidle
        cases hidle

/-- While `serve` handles a packet nothing has been given up. -/
theorem not_stopping {s : System.State TunnelState Tid Op} (hT : TunnelInv s)
    (hcore : core (s.threads .serve) = [op]) (hop : op ≠ .closeDone) :
    ¬ (Stopping (core (s.threads .serve)) ∨ s.shared.done = true) := by
  rintro ((h | h) | h)
  · rw [hcore] at h
    cases h
  · rw [hcore] at h
    injection h with h
    exact hop h
  · have hidle := hT.done h
    rw [hcore] at hidle
    cases hidle

theorem inHand_core (r : DialID) (ops : List Op) : inHand r (core ops) = inHand r ops :=
  filterMap_core (fun o hm => by cases o <;> first | rfl | cases hm) ops

theorem foundFor_append (r : DialID) (found : Found) (r' : DialID) (pkt : Packet) :
    foundFor r (found ++ [(r', pkt)]) = foundFor r found ++ if r' = r then [pkt] else [] := by
  unfold foundFor
  rw [List.filter_append, List.map_append]
  by_cases hr : r' = r <;> simp [hr]

/-- The core of `serve` with one operation of the loop. -/
theorem core_alone {s : System.State TunnelState Tid Op} (hT : TunnelInv s)
    (ht : s.threads .serve = op :: rest)
    (hop : (∃ cid k, op = .connsGet cid k) ∨ ∃ r pkt data, op = .sendReadCh r pkt data) :
    core (s.threads .serve) = [op] ∧ inHand r rest = [] := by
  have hm : op.isMetric = false := by
    rcases hop with ⟨cid, k, rfl⟩ | ⟨r, pkt, data, rfl⟩ <;> rfl
  have hserving := hT.serving
  have hcore : core (s.threads .serve) = op :: core rest := by rw [ht, core_cons hm]
  rw [hcore] at hserving
  have hrest : core rest = [] := by
    generalize core rest = l at hserving
    rcases hop with ⟨cid, k, rfl⟩ | ⟨r, pkt, data, rfl⟩ <;> cases hserving <;> rfl
  refine ⟨by rw [hcore, hrest], ?_⟩
  rw [← inHand_core, hrest]
  rfl

/-- `conns.get` for a `DATA` packet. -/
theorem ByteInv.connsGet (h : ByteInv r s) (hT : TunnelInv s.unmeasured) {cid : ConnectID}
    {pkt : Packet} {data : Bytes} (ht : s.threads .serve = .connsGet cid (.data pkt data) :: rest)
    (hthreads : threads .serve =
      (AfterGet.data pkt data).next cid (s.shared.1.conns.lookup cid) ++ rest) :
    ByteInv r ⟨(s.shared.1, noteFound s.shared.1 t (.connsGet cid (.data pkt data)) s.shared.1
      s.shared.2), threads⟩ := by
  obtain ⟨hcore, hrest⟩ := @core_alone r _ _ s.unmeasured hT ht (Or.inl ⟨cid, _, rfl⟩)
  obtain ⟨lost, hfound, hlost⟩ := h.taken
  have hnone : lost = [] := by
    by_contra hne
    exact not_stopping hT hcore (fun hx => nomatch hx) (hlost hne)
  have hold : inHand r (s.threads .serve) = [] := by
    rw [ht]
    exact hrest
  rw [hnone, hold, List.append_nil, List.append_nil] at hfound
  cases hl : s.shared.1.conns.lookup cid with
  | none =>
      rw [hl] at hthreads
      have hsame : noteFound s.shared.1 t (.connsGet cid (.data pkt data)) s.shared.1 s.shared.2 =
          s.shared.2 := by simp only [noteFound, hl]
      rw [hsame]
      refine h.keep (.refl r _) (fun hn => (h.fresh hn).1) ⟨[], ?_, fun hx => absurd rfl hx⟩
      rw [hthreads, inHand_append, hrest, hfound]
      simp [inHand, AfterGet.next, Op.sends]
  | some r' =>
      rw [hl] at hthreads
      have hgrown : noteFound s.shared.1 t (.connsGet cid (.data pkt data)) s.shared.1 s.shared.2 =
          s.shared.2 ++ [(r', pkt)] := by simp only [noteFound, hl]
      rw [hgrown]
      refine h.keep (.refl r _) (fun hn => ?_) ⟨[], ?_, fun hx => absurd rfl hx⟩
      · -- a connection that is found was registered
        have hne : r' ≠ r := fun hx => hn cid (hx ▸ hT.history.conns cid r' hl)
        rw [foundFor_append, if_neg hne, List.append_nil]
        exact (h.fresh hn).1
      · rw [hthreads, inHand_append, hrest, foundFor_append, hfound]
        by_cases hr : r' = r <;> simp [inHand, AfterGet.next, Op.sends, hr]

/-- The `select` with a payload for the connection. -/
theorem ByteInv.sendReadCh (h : ByteInv r s) (hT : TunnelInv s.unmeasured)
    (hC : ChanInv s.unmeasured) {pkt : Packet} {data : Bytes} {s' : TunnelState}
    (ht : s.threads .serve = .sendReadCh r pkt data :: rest)
    (hlabel : pkt.type = .data ∧ payloadOf pkt = data) (hok : data ≠ [] ∧ c.case ≠ .ctxDone)
    (hsend : s.shared.1.sendReadCh r pkt data c.case = some (s', ops))
    (hthreads : threads .serve = ops ++ rest) : ByteInv r ⟨(s', s.shared.2), threads⟩ := by
  obtain ⟨hcore, hrest⟩ := @core_alone r _ _ s.unmeasured hT ht (Or.inr ⟨r, pkt, data, rfl⟩)
  obtain ⟨lost, hfound, hlost⟩ := h.taken
  have hnone : lost = [] := by
    by_contra hne
    exact not_stopping hT hcore (fun hx => nomatch hx) (hlost hne)
  have hold : inHand r (s.threads .serve) = [pkt] := by
    have hsends : (Op.sendReadCh r pkt data).sends r = some pkt := if_pos rfl
    rw [ht, inHand, List.filterMap_cons_some hsends]
    exact congrArg _ hrest
  obtain ⟨cid, hreg⟩ : ∃ cid, .registered cid r ∈ s.shared.1.log := by
    have hserving := hT.serving
    rw [hcore] at hserving
    cases hserving with
    | sendReadCh hr _ => exact ⟨_, hr⟩
  rw [hnone, hold, List.append_nil] at hfound
  have hopen : (s.shared.1.conn r).readCh.closed = false := by
    refine Bool.eq_false_iff.mpr fun hc => ?_
    rcases hC.read r hc with hd | ⟨hd, -⟩
    · exact not_stopping hT hcore (fun hx => nomatch hx) (Or.inr hd)
    · rw [hcore] at hd
      cases List.mem_singleton.mp hd
  unfold TunnelState.sendReadCh at hsend
  split at hsend
  · unfold GoChan.send at hsend
    rw [hopen] at hsend
    simp only [Bool.false_eq_true, if_false] at hsend
    split at hsend
    · cases hsend
    · next heq =>
        split at heq <;> cases heq
    · next ch heq =>
        split at heq <;> cases heq
        injection hsend with hsend
        injection hsend with hs' hops
        have hlog : s'.log = .delivered r pkt :: s.shared.1.log := by rw [← hs']; rfl
        have hbuf : (s'.conn r).readCh.buf = (s.shared.1.conn r).readCh.buf ++ [data] := by
          rw [← hs', TunnelState.record_conn, TunnelState.setConn_conn, Function.update_self]
        have hrdata : (s'.conn r).rdata = (s.shared.1.conn r).rdata := by
          rw [← hs', TunnelState.record_conn, TunnelState.setConn_conn, Function.update_self]
        have hclosed : (s'.conn r).readCh.closed = false := by
          rw [← hs', TunnelState.record_conn, TunnelState.setConn_conn, Function.update_self]
        have hputs : (Event.delivered r pkt).puts r = some pkt := if_pos ⟨rfl, hlabel.1⟩
        refine ⟨⟨[], ?_, fun hx => absurd rfl hx⟩, ?_, ?_, fun hx => ?_, ?_, fun hn => ?_⟩
        · dsimp only
          rw [hlog, putInto_cons, hputs, hthreads, ← hops, List.nil_append, hrest, hfound]
          simp
        · dsimp only
          rw [hlog, putInto_cons, hputs, readBytes_cons, List.flatMap_append, h.bytes, hbuf, hrdata]
          simp [Event.bytes, hlabel.2]
        · dsimp only
          rw [hbuf]
          intro d hd
          rcases List.mem_append.mp hd with hd | hd
          · exact h.nonempty d hd
          · rw [List.mem_singleton.mp hd]
            exact hok.1
        · exact absurd hx (Bool.eq_false_iff.mp hclosed)
        · dsimp only
          rw [hlog]
          exact ⟨(fun hx => nomatch hx), h.eof⟩
        · refine absurd ?_ (hn cid)
          dsimp only
          rw [hlog]
          exact List.mem_cons_of_mem _ hreg
  · cases hsend
    -- the payload is given up, and with it the loop
    refine h.keep (.refl r _) (fun hn => absurd hreg (hn cid)) ⟨[pkt], ?_, fun _ => Or.inl ?_⟩
    · rw [hthreads, inHand_append, hrest, hfound]
      simp [inHand, serveExit, Op.sends]
    · have htail : core rest = [] := by
        have hcons : core (s.threads .serve) = .sendReadCh r pkt data :: core rest := by
          rw [ht, core_cons rfl]
        exact (List.cons.inj (hcons.symm.trans hcore)).2
      rw [hthreads, core_append, htail, core_serveExit]
      exact Or.inl rfl
  · exact absurd ‹_› hok.2
  · cases hsend

/-- `conns.add`: nothing has been received for the connection yet. -/
theorem ByteInv.connsAdd (h : ByteInv r s) (hnew : ∀ cid, .registered cid r ∉ s.shared.1.log)
    {cid : ConnectID} (hserve : threads .serve = s.threads .serve)
    (hlog : s₁.1.log = .registered cid r :: s.shared.1.log)
    (hconn : s₁.1.conn r = { connID := cid })
    (hfound : s₁.2 = s.shared.2) (hdone : s.shared.1.done = true → s₁.1.done = true) :
    ByteInv r ⟨s₁, threads⟩ := by
  obtain ⟨hnone, hbuf, hrdata, -⟩ := h.fresh hnew
  have hsilent : ∀ e ∈ [Event.registered cid r], e.Silent r := by
    intro e he
    rw [List.mem_singleton.mp he]
    exact ⟨rfl, rfl, fun hx => nomatch hx⟩
  obtain ⟨hput, hread, heof⟩ := silent_log s.shared.1.log hsilent
  have hbytes := h.bytes
  rw [hbuf, hrdata] at hbytes
  rw [List.singleton_append, ← hlog] at hput hread heof
  refine ⟨?_, ?_, ?_, fun hx => ?_, heof h.eof, fun hn => ?_⟩
  · obtain ⟨lost, htaken, hlost⟩ := h.taken
    refine ⟨lost, ?_, fun hx => ?_⟩
    · dsimp only
      rw [hput, hserve, hfound]
      exact htaken
    · dsimp only
      rw [hserve]
      exact (hlost hx).imp_right hdone
  · dsimp only
    rw [hput, hread, hconn]
    exact hbytes
  · dsimp only
    rw [hconn]
    exact fun data hd => nomatch hd
  · dsimp only at hx
    rw [hconn] at hx
    cases hx
  · refine absurd ?_ (hn cid)
    dsimp only
    rw [hlog]
    exact List.mem_cons_self

/-- A connection is returned once it is registered. -/
theorem returning_registered {s : System.State TunnelState Tid Op} (hT : TunnelInv s)
    (ht : s.threads t = op :: rest) {cid : ConnectID} (hop : op = .dialReturn r (.conn cid)) :
    .registered cid r ∈ s.shared.log := by
  subst hop
  have hmem : .dialReturn r (.conn cid) ∈ s.threads t := by rw [ht]; exact List.mem_cons_self
  by_cases hs : t = .serve
  · subst hs
    have hcore : .dialReturn r (.conn cid) ∈ core (s.threads .serve) := mem_core.mpr ⟨hmem, rfl⟩
    have hserving := hT.serving
    generalize core (s.threads .serve) = l at hcore hserving
    cases hserving <;> simp at hcore
  · by_cases hd : t = .dial
    · subst hd
      have hdialing := hT.dialing
      rw [ht, core_cons rfl] at hdialing
      generalize core rest = l at hdialing
      cases hdialing with
      | dialReturn hret => exact hret cid rfl
    · cases hT.outer t hs hd _ hmem

/-- Only `dialContext` registers a connection, and it does so once. -/
theorem registering_dial {s : System.State TunnelState Tid Op} (hT : TunnelInv s)
    {cid : ConnectID} (ht : s.threads t = .connsAdd cid r :: rest) :
    t = .dial ∧ ∀ cid r, .registered cid r ∉ s.shared.log := by
  have hmem : .connsAdd cid r ∈ s.threads t := by rw [ht]; exact List.mem_cons_self
  have hdial : t = .dial := by
    by_contra hd
    by_cases hs : t = .serve
    · subst hs
      have hcore : .connsAdd cid r ∈ core (s.threads .serve) := mem_core.mpr ⟨hmem, rfl⟩
      have hserving := hT.serving
      generalize core (s.threads .serve) = l at hcore hserving
      cases hserving <;> simp at hcore
    · cases hT.outer t hs hd _ hmem
  subst hdial
  exact ⟨rfl, hT.fresh _ hmem rfl⟩

theorem ByteInv.exec (h : ByteInv r s) (hT : TunnelInv s.unmeasured) (hC : ChanInv s.unmeasured)
    (hop : op.Labelled) (ht : s.threads t = op :: rest) (hok : Intact s.shared.1 t c op)
    (hex : Konnectivity.Client.exec s.shared.1 t c op = some (s₁.1, ops, start))
    (hnote : s₁.2 = noteFound s.shared.1 t op s₁.1 s.shared.2) :
    ByteInv r ⟨s₁, Pool.spawn (Function.update s.threads t (ops ++ rest)) start⟩ := by
  have hmem : op ∈ s.threads t := by rw [ht]; exact List.mem_cons_self
  have hserve : Pool.spawn (Function.update s.threads t (ops ++ rest)) start .serve =
      Function.update s.threads t (ops ++ rest) .serve :=
    Pool.spawn_of_ne (exec_start hex (Or.inl rfl))
  have hdone : s.shared.1.done = true → s₁.1.done = true := by
    intro hd
    rw [exec_done hex, hd]
    rfl
  by_cases hsend : ∃ pkt data, op = .sendReadCh r pkt data
  · obtain ⟨pkt, data, rfl⟩ := hsend
    obtain rfl := hT.byServe rfl hmem
    rw [Function.update_self] at hserve
    simp only [Konnectivity.Client.exec] at hex
    obtain ⟨⟨s', ops'⟩, hs, heq⟩ := Option.map_eq_some_iff.mp hex
    simp only [Prod.mk.injEq] at heq
    obtain ⟨rfl, rfl, rfl⟩ := heq
    have hpair : s₁ = (s₁.1, s.shared.2) := Prod.ext rfl hnote
    rw [hpair]
    exact h.sendReadCh hT hC ht hop hok hs hserve
  by_cases hadd : ∃ cid, op = .connsAdd cid r
  · obtain ⟨cid, rfl⟩ := hadd
    obtain ⟨rfl, hnew⟩ := @registering_dial r _ _ s.unmeasured hT cid ht
    rw [Function.update_of_ne (show Tid.serve ≠ .dial from fun hx => by cases hx)] at hserve
    simp only [Konnectivity.Client.exec, Option.some.injEq, Prod.mk.injEq] at hex
    have hlog : s₁.1.log = .registered cid r :: s.shared.1.log := by
      rw [← hex.1]
      rfl
    refine h.connsAdd (fun cid => hnew cid r) hserve hlog ?_ hnote hdone
    rw [← hex.1, TunnelState.record_conn, TunnelState.setConn_conn, Function.update_self]
  by_cases hget : ∃ cid pkt data, op = .connsGet cid (.data pkt data)
  · obtain ⟨cid, pkt, data, rfl⟩ := hget
    obtain rfl := hT.byServe rfl hmem
    rw [Function.update_self] at hserve
    simp only [Konnectivity.Client.exec, Option.some.injEq, Prod.mk.injEq] at hex
    obtain ⟨hsame, rfl, -⟩ := hex
    have hpair : s₁ = (s.shared.1, noteFound s.shared.1 .serve (.connsGet cid (.data pkt data))
        s.shared.1 s.shared.2) := by
      refine Prod.ext hsame.symm ?_
      rw [hnote, ← hsame]
    rw [hpair]
    exact h.connsGet hT ht hserve
  · have hk : Kept r s.shared.1 s₁.1 :=
      exec_kept hop (fun pkt data hx => hsend ⟨pkt, data, hx⟩) (fun cid hx => hadd ⟨cid, hx⟩)
        (fun cid hx => @returning_registered r _ _ _ s.unmeasured hT ht cid hx) hex
    have hfound : s₁.2 = s.shared.2 := by
      rw [hnote]
      cases op with
      | connsGet cid k =>
          cases k with
          | data pkt data => exact absurd ⟨cid, pkt, data, rfl⟩ hget
          | closeRsp pkt error => rfl
      | _ => rfl
    refine h.keep hk (fun hn => by rw [hfound]; exact (h.fresh hn).1) ?_
    obtain ⟨lost, htaken, hlost⟩ := h.taken
    by_cases hs : t = .serve
    · subst hs
      have hsends : op.sends r = none := by
        cases op with
        | sendReadCh r' pkt data => exact if_neg fun hx => hsend ⟨pkt, data, by rw [hx]⟩
        | _ => rfl
      have hsame : inHand r (ops ++ rest) = inHand r (s.threads .serve) := by
        have hops := (exec_ops hop hex).2 (fun cid pkt data hx => hget ⟨cid, pkt, data, hx⟩) r
        rw [inHand_append, hops, ht]
        exact (List.filterMap_cons_none hsends).symm
      rw [hserve, Function.update_self, hsame, hfound]
      exact ⟨lost, htaken, fun hx => Stopping.exec hT ht hex (hlost hx)⟩
    · rw [hserve, Function.update_of_ne (Ne.symm hs), hfound]
      exact ⟨lost, htaken, fun hx => (hlost hx).imp_right hdone⟩

/-! ### `Read` -/

/-- What `Read` returns and keeps is what it got hold of. -/
theorem Conn.read_bytes (x : Conn) (n : Nat) {data : Bytes} (hdata : data ≠ []) :
    ∃ ret, (x.read n data).2 = some ret ∧ ret ++ (x.read n data).1.rdata = data := by
  unfold Conn.read
  rw [if_neg hdata]
  split
  · exact ⟨_, rfl, List.take_append_drop n data⟩
  · exact ⟨_, rfl, List.append_nil _⟩

theorem Conn.read_frame (x : Conn) (n : Nat) (data : Bytes) :
    (x.read n data).1.readCh = x.readCh ∧ (x.read n data).1.returned = x.returned := by
  unfold Conn.read
  repeat' split
  all_goals exact ⟨rfl, rfl⟩

/-- `Read` returns part of what is on its way, or `io.EOF` when nothing is. -/
theorem ByteInv.readReturned (h : ByteInv r s) {s' : TunnelState} {ret : Option Bytes}
    (hret : (s.shared.1.conn r).returned = true)
    (hlog : s'.log = .readReturned r ret :: s.shared.1.log) (hdone : s'.done = s.shared.1.done)
    (hbytes : ret.getD [] ++ (s'.conn r).rdata ++ (s'.conn r).readCh.buf.flatten =
      (s.shared.1.conn r).rdata ++ (s.shared.1.conn r).readCh.buf.flatten)
    (hbuf : (s'.conn r).readCh.buf ⊆ (s.shared.1.conn r).readCh.buf)
    (hclosed : (s'.conn r).readCh.closed = (s.shared.1.conn r).readCh.closed)
    (heof : ret = none → (s.shared.1.conn r).readCh.closed = true) :
    ByteInv r ⟨(s', s.shared.2), s.threads⟩ := by
  have hput : putInto r s'.log = putInto r s.shared.1.log := by
    rw [hlog, putInto_cons]
    exact List.append_nil _
  have hread : readBytes r s'.log = readBytes r s.shared.1.log ++ ret.getD [] := by
    rw [hlog, readBytes_cons]
    cases ret with
    | none => rfl
    | some data => rw [Event.bytes, if_pos rfl]; rfl
  refine ⟨?_, ?_, fun data hd => h.nonempty data (hbuf hd), fun hx => ?_, ?_, fun hn => ?_⟩
  · dsimp only
    rw [hput, hdone]
    exact h.taken
  · dsimp only
    rw [hput, hread, h.bytes, List.append_assoc, ← hbytes]
    simp only [List.append_assoc]
  · dsimp only at hx ⊢
    rw [hclosed] at hx
    rw [hlog]
    exact List.mem_cons_of_mem _ (h.closed hx)
  · dsimp only
    rw [hlog]
    refine ⟨fun hx => ?_, h.eof⟩
    injection hx with _ hx
    exact h.closed (heof hx)
  · have hold : ∀ cid, .registered cid r ∉ s.shared.1.log := by
      intro cid hm
      refine hn cid ?_
      dsimp only
      rw [hlog]
      exact List.mem_cons_of_mem _ hm
    rw [(h.fresh hold).2.2.2] at hret
    cases hret

/-- A `Read` of the connection. -/
theorem ByteInv.read (h : ByteInv r s) {n : Nat} {s' : TunnelState}
    (harr : Konnectivity.Client.arrive s.shared.1 (.read r n) = some (s', start)) :
    start = none ∧ ByteInv r ⟨(s', s.shared.2), s.threads⟩ := by
  simp only [Konnectivity.Client.arrive] at harr
  split at harr
  · cases harr
  · next hret =>
      have hret : (s.shared.1.conn r).returned = true := by simpa using hret
      split at harr
      · next hrdata =>
          obtain ⟨ret, hsome, hsplit⟩ := Conn.read_bytes (s.shared.1.conn r) n hrdata
          obtain ⟨hch, -⟩ := Conn.read_frame (s.shared.1.conn r) n (s.shared.1.conn r).rdata
          cases harr
          refine ⟨rfl, h.readReturned hret rfl rfl ?_ ?_ ?_ fun hx => ?_⟩
          · rw [TunnelState.record_conn, TunnelState.setConn_conn, Function.update_self, hsome, hch]
            show ret ++ _ ++ _ = _
            rw [hsplit]
          · rw [TunnelState.record_conn, TunnelState.setConn_conn, Function.update_self, hch]
            exact fun _ hx => hx
          · rw [TunnelState.record_conn, TunnelState.setConn_conn, Function.update_self, hch]
          · rw [hsome] at hx
            cases hx
      · next hrdata =>
          have hrdata : (s.shared.1.conn r).rdata = [] := by simpa using hrdata
          split at harr
          · cases harr
          · next data ch hrecv =>
              cases harr
              unfold GoChan.recv at hrecv
              split at hrecv
              · next v buf hbuf =>
                  -- a payload, which is not empty
                  cases hrecv
                  have hv : v ≠ [] := h.nonempty v (by rw [hbuf]; exact List.mem_cons_self)
                  obtain ⟨ret, hsome, hsplit⟩ := Conn.read_bytes { s.shared.1.conn r with
                    readCh := { (s.shared.1.conn r).readCh with buf := buf } } n hv
                  obtain ⟨hch, -⟩ := Conn.read_frame { s.shared.1.conn r with
                    readCh := { (s.shared.1.conn r).readCh with buf := buf } } n v
                  refine ⟨rfl, h.readReturned hret rfl rfl ?_ ?_ ?_ fun hx => ?_⟩
                  · rw [TunnelState.record_conn, TunnelState.setConn_conn, Function.update_self,
                      Option.getD_some, hsome, hch]
                    show ret ++ _ ++ _ = _
                    rw [hsplit, hrdata, hbuf]
                    simp
                  · rw [TunnelState.record_conn, TunnelState.setConn_conn, Function.update_self,
                      Option.getD_some, hch, hbuf]
                    exact List.subset_cons_self _ _
                  · rw [TunnelState.record_conn, TunnelState.setConn_conn, Function.update_self,
                      Option.getD_some, hch]
                  · rw [Option.getD_some, hsome] at hx
                    cases hx
              · next hbuf =>
                  -- the channel is closed and drained
                  split at hrecv
                  · next hclosed =>
                      cases hrecv
                      refine ⟨rfl, h.readReturned hret rfl rfl ?_ ?_ ?_ fun _ => hclosed⟩
                      · rw [TunnelState.record_conn, TunnelState.setConn_conn,
                          Function.update_self]
                        rfl
                      · rw [TunnelState.record_conn, TunnelState.setConn_conn,
                          Function.update_self]
                        exact fun _ hx => hx
                      · rw [TunnelState.record_conn, TunnelState.setConn_conn,
                          Function.update_self]
                        rfl
                  · cases hrecv

/-- What else arrives leaves the stream alone. -/
theorem arrive_kept {s s₁ : TunnelState} {a : TunnelAction} (ha : ∀ n, a ≠ .read r n)
    (harr : Konnectivity.Client.arrive s a = some (s₁, start)) : Kept r s s₁ := by
  have one : ∀ {e : Event} {s' : TunnelState}, s'.conn r = s.conn r → s'.log = e :: s.log →
      e.Silent r → Kept r s s' :=
    fun hconn hlog he => .of_conn [_] hconn hlog fun e' he' => List.mem_singleton.mp he' ▸ he
  have quiet : ∀ {s' : TunnelState}, s'.conn r = s.conn r → s'.log = s.log → Kept r s s' :=
    fun hconn hlog => .of_conn [] hconn hlog fun _ h => by cases h
  cases a with
  | read r' n =>
      have hr : r ≠ r' := fun h => ha n (by rw [h])
      have hsilent : ∀ ret, (Event.readReturned r' ret).Silent r := by
        refine fun ret => ⟨rfl, ?_, fun hx => hr ?_⟩
        · cases ret with
          | none => rfl
          | some data => exact if_neg (Ne.symm hr)
        · injection hx with hx
          exact hx.symm
      simp only [Konnectivity.Client.arrive] at harr
      repeat' split at harr
      all_goals cases harr
      all_goals exact one (Function.update_of_ne hr _ _) rfl (hsilent _)
  | receive pkt =>
      simp only [Konnectivity.Client.arrive] at harr
      split at harr <;> cases harr
      exact one rfl rfl ⟨rfl, rfl, fun hx => by cases hx⟩
  | dialContext r' protocol address =>
      simp only [Konnectivity.Client.arrive] at harr
      split at harr <;> cases harr
      all_goals exact one rfl rfl ⟨rfl, rfl, fun hx => by cases hx⟩
  | _ =>
      simp only [Konnectivity.Client.arrive] at harr
      repeat' split at harr
      all_goals cases harr
      all_goals exact quiet rfl rfl

/-- What `serve` is given to do when it was idle. -/
theorem arrive_inHand {s s₁ : TunnelState} {a : TunnelAction}
    (harr : Konnectivity.Client.arrive s a = some (s₁, some (t, ops))) :
    ops.all Op.plain = true := by
  cases a <;> simp only [Konnectivity.Client.arrive] at harr <;> repeat' split at harr
  all_goals cases harr
  all_goals rfl

theorem ByteInv.arrive (h : ByteInv r s) {a : TunnelAction}
    (harr : Konnectivity.Client.arrive s.shared.1 a = some (s₁.1, start))
    (hfound : s₁.2 = s.shared.2) (hthreads : Pool.Arrived s.threads start threads) :
    ByteInv r ⟨s₁, threads⟩ := by
  have hpair : s₁ = (s₁.1, s.shared.2) := Prod.ext rfl hfound
  by_cases ha : ∃ n, a = .read r n
  · obtain ⟨n, rfl⟩ := ha
    obtain ⟨rfl, hread⟩ := h.read harr
    rw [hpair, show threads = s.threads from hthreads]
    exact hread
  · have hk := arrive_kept (fun n hx => ha ⟨n, hx⟩) harr
    have hdone := (arrive_flags harr).1
    obtain ⟨lost, htaken, hlost⟩ := h.taken
    refine h.keep hk (fun hn => by rw [hfound]; exact (h.fresh hn).1) ?_
    rw [hfound, hdone]
    by_cases hserve : threads .serve = s.threads .serve
    · rw [hserve]
      exact ⟨lost, htaken, hlost⟩
    · -- `serve` was idle and its loop goes on, so that nothing was given up
      obtain ⟨ops', rfl⟩ : ∃ ops', start = some (.serve, ops') := by
        cases start with
        | none => exact absurd (congrFun hthreads _) hserve
        | some st =>
            by_cases hx : st.1 = .serve
            · exact ⟨st.2, by rw [← hx]⟩
            · obtain ⟨-, rfl⟩ := hthreads
              exact absurd (Function.update_of_ne (Ne.symm hx) _ _) hserve
      have hidle : s.threads .serve = [] := hthreads.1
      have hnone : lost = [] := by
        by_contra hne
        rcases hlost hne with (hx | hx) | hx
        · rw [hidle] at hx
          cases hx
        · rw [hidle] at hx
          cases hx
        · rw [arrive_serve harr] at hx
          cases hx
      refine ⟨[], ?_, fun hx => absurd rfl hx⟩
      rw [hthreads.started, plain_inHand (arrive_inHand harr) r, htaken, hnone, hidle]
      rfl

end Steps

/-! ## Every run -/

theorem tunnel_labelled {okExec : TunnelState → Tid → Choice → Op → Prop}
    {okArrive : TunnelState → TunnelAction → Prop} {s : System.State TunnelState Tid Op}
    (h : Reach tunnel.step (System.Allowed okExec okArrive) newTunnel s) :
    Pool.All (fun _ o => o.Labelled) s.threads := by
  refine (System.invariant (fun _ => True) (fun _ _ o => o.Labelled) trivial ?_ ?_ ?_ h).2
  · exact fun t o ho => nomatch ho
  · intro s a s₁ start _ _ _ harr
    refine ⟨trivial, fun _ _ hx => hx, ?_⟩
    cases a <;> simp only [tunnel, arrive] at harr <;> repeat' split at harr
    all_goals cases harr
    all_goals first
      | trivial
      | exact plain_labelled rfl
  · intro s t c o rest s₁ ops start _ _ _ hop _ hex
    refine ⟨trivial, fun _ _ hx => hx, (exec_ops hop hex).1, ?_⟩
    cases start with
    | none => trivial
    | some st => exact plain_labelled (exec_started hex)

theorem recorded_reach {s : System.State (TunnelState × Found) Tid Op}
    (h : Reach recordedTunnel.step
      (System.Allowed (fun s => Intact s.1) fun _ _ => True) newRecordedTunnel s) :
    Reach tunnel.step (System.Allowed Intact fun _ _ => True) newTunnel s.unmeasured :=
  @System.measured_reach _ _ _ _ _ _ tunnel Intact (fun _ _ => True) _ noteFound _ _ h

theorem recorded_bytes {s : System.State (TunnelState × Found) Tid Op} (r : DialID)
    (h : Reach recordedTunnel.step
      (System.Allowed (fun s => Intact s.1) fun _ _ => True) newRecordedTunnel s) :
    ByteInv r s := by
  refine System.invariant_state (ByteInv r) ?_ ?_ ?_ h
  · exact ⟨⟨[], rfl, fun hx => absurd rfl hx⟩, rfl, (fun d hd => nomatch hd),
      (fun hx => nomatch hx), trivial, fun _ => ⟨rfl, rfl, rfl, rfl⟩⟩
  · intro s t c op rest s₁ ops start hr hinv _ ht hok hex
    have hreach := recorded_reach hr
    obtain ⟨hex, hnote⟩ := System.measured_exec hex
    have hop := tunnel_labelled hreach t op
        (by rw [System.State.unmeasured, ht]; exact List.mem_cons_self)
    exact hinv.exec (tunnel_inv hreach) (tunnel_chans hreach) hop ht hok hex hnote
  · intro s a s₁ start threads hr hinv _ _ harr hthreads
    obtain ⟨harr, hfound⟩ := System.measured_arrive harr
    exact hinv.arrive harr hfound hthreads

/-! ## The stream a reader sees -/

/-- What `Read` returned is a prefix of what was received, no payload was
delivered after one that was not, and `io.EOF` came after the connection was
closed by a `CLOSE_RSP` or by the end of `serve`. -/
structure Unbroken (r : DialID) (s : TunnelState × Found) : Prop where
  bytes : readBytes r s.1.log <+: (foundFor r s.2).flatMap payloadOf
  packets : putInto r s.1.log <+: foundFor r s.2
  eof : ∀ later earlier, s.1.log = later ++ Event.readReturned r none :: earlier →
    .readClosed r ∈ earlier

/-- As long as no empty payload is delivered and no delivery sees the tunnel's
context end, a connection delivers an unbroken stream. -/
theorem conn_stream_unbroken {s : System.State (TunnelState × Found) Tid Op}
    (h : Reach recordedTunnel.step
      (System.Allowed (fun s => Intact s.1) fun _ _ => True) newRecordedTunnel s) (r : DialID) :
    Unbroken r s.shared := by
  have hinv := recorded_bytes r h
  obtain ⟨lost, htaken, -⟩ := hinv.taken
  refine ⟨?_, ?_, fun later earlier hlog => ?_⟩
  · rw [htaken, List.flatMap_append, List.flatMap_append, hinv.bytes]
    simp only [List.append_assoc]
    exact List.prefix_append _ _
  · rw [htaken, List.append_assoc]
    exact List.prefix_append _ _
  · exact hinv.eof.at_append hlog rfl

/-- `dialContext` returns connection 1. -/
def connectRun : List (System.Action Tid TunnelAction Choice) :=
  [.arrive (.dialContext 10 "tcp" "h"), .run .dial {}, .run .dial {}, .run .dial {},
    .run .dial {}, .run .dial {}, .run .dial {}, .run .dial {},
    .arrive (.receive (.ofDialResponse ⟨"", 1, 10⟩)), .run .serve {}, .run .serve {},
    .run .serve {}, .run .serve {}, .run .serve {}, .run .serve {}, .run .serve {},
    .run .dial {}, .run .serve {}, .run .dial {}, .run .dial {}, .run .dial {}, .run .dial {}]

/-- A `DATA` packet of connection 1, whose `select` takes the given case. -/
def dataRun (data : Bytes) (case : Case) : List (System.Action Tid TunnelAction Choice) :=
  [.arrive (.receive (.ofData ⟨1, "", data⟩)), .run .serve {}, .run .serve {},
    .run .serve { case := case }]

instance decidableIntact (s : TunnelState) (t : Tid) (c : Choice) (op : Op) :
    Decidable (Intact s t c op) := by
  unfold Intact
  split <;> infer_instance

/-- Two payloads, read in pieces, and then the end of the stream. -/
theorem conn_stream_unbroken_read :
    ∃ s, Reach recordedTunnel.step
        (System.Allowed (fun s => Intact s.1) fun _ _ => True) newRecordedTunnel s ∧
      readBytes 10 s.shared.1.log = [7, 8, 9] ∧ .readReturned 10 none ∈ s.shared.1.log ∧
      Unbroken 10 s.shared := by
  let acts := List.flatten [connectRun, dataRun [7, 8] .proceed, dataRun [9] .proceed,
    [.arrive (.read 10 1), .arrive (.receive (.ofCloseResponse ⟨"", 1⟩)), .run .serve {},
      .run .serve {}, .run .serve {}, .arrive (.read 10 4), .arrive (.read 10 4),
      .arrive (.read 10 4)]]
  obtain ⟨s, hs, hend⟩ : ∃ s, run recordedTunnel.step newRecordedTunnel acts = some s ∧
      decide (readBytes 10 s.shared.1.log = [7, 8, 9] ∧
        .readReturned 10 none ∈ s.shared.1.log) = true := run_any (by decide)
  have hreach : Reach recordedTunnel.step
      (System.Allowed (fun s => Intact s.1) fun _ _ => True) newRecordedTunnel s :=
    reach_of_run hs (by decide)
  obtain ⟨hbytes, heof⟩ := of_decide_eq_true hend
  exact ⟨s, hreach, hbytes, heof, conn_stream_unbroken hreach 10⟩

/-- The two ways a stream is broken. The context of the tunnel ends: a payload
is dropped and a later one delivered. An empty payload arrives: `Read` returns
`io.EOF` and then more bytes. -/
theorem conn_stream_broken :
    (∃ s, Reach recordedTunnel.step anyStep newRecordedTunnel s ∧
      (foundFor 10 s.shared.2).flatMap payloadOf = [1, 2] ∧
      readBytes 10 s.shared.1.log = [2] ∧ ¬ Unbroken 10 s.shared) ∧
    ∃ s, Reach recordedTunnel.step anyStep newRecordedTunnel s ∧
      .readReturned 10 none ∈ s.shared.1.log ∧ .readClosed 10 ∉ s.shared.1.log ∧
      s.shared.1.done = false ∧ readBytes 10 s.shared.1.log = [3] ∧ ¬ Unbroken 10 s.shared := by
  constructor
  · let acts := List.flatten [connectRun, [.arrive .cancelTunnel], dataRun [1] .ctxDone,
      dataRun [2] .proceed, [.arrive (.read 10 4)]]
    obtain ⟨s, hs, hend⟩ : ∃ s, run recordedTunnel.step newRecordedTunnel acts = some s ∧
        decide ((foundFor 10 s.shared.2).flatMap payloadOf = [1, 2] ∧
          readBytes 10 s.shared.1.log = [2]) = true := run_any (by decide)
    obtain ⟨hfound, hread⟩ := of_decide_eq_true hend
    refine ⟨s, reach_of_run_any hs, hfound, hread, fun h => ?_⟩
    have hbytes := h.bytes
    rw [hfound, hread] at hbytes
    revert hbytes
    decide
  · let acts := List.flatten [connectRun, dataRun [] .proceed, dataRun [3] .proceed,
      [.arrive (.read 10 4), .arrive (.read 10 4)]]
    obtain ⟨s, hs, hend⟩ : ∃ s, run recordedTunnel.step newRecordedTunnel acts = some s ∧
        decide (.readReturned 10 none ∈ s.shared.1.log ∧ .readClosed 10 ∉ s.shared.1.log ∧
          s.shared.1.done = false ∧ readBytes 10 s.shared.1.log = [3]) = true :=
      run_any (by decide)
    obtain ⟨heof, hopen, hdone, hread⟩ := of_decide_eq_true hend
    refine ⟨s, reach_of_run_any hs, heof, hopen, hdone, hread, fun h => ?_⟩
    obtain ⟨later, earlier, hlog⟩ := List.append_of_mem heof
    refine hopen ?_
    rw [hlog]
    exact List.mem_append_right _ (List.mem_cons_of_mem _ (h.eof later earlier hlog))

end Konnectivity.Client
