import Konnectivity.Server.Conn

/-!
# The receive side of `serverConn`

Whatever was accepted and not yet returned by `Read` is in `rdata` and
`buffer`, in order. Everything else about the stream follows from this one
equation: what `Read` returns is a prefix of what was accepted, an error of
the agent is reported when nothing is left, and a `Read` that fails takes
nothing with it.
-/

namespace Konnectivity.Server.Conn

open Lib

def Event.acceptedData : Event → Bytes
  | .accepted data => data
  | _ => []

def Event.readData : Event → Bytes
  | .readReturned _ (.ok data) => data
  | _ => []

/-- The payloads `handleData` accepted, in order. -/
def acceptedBytes (log : List Event) : Bytes := log.reverse.flatMap Event.acceptedData

/-- What `Read` returned, in order. -/
def readBytes (log : List Event) : Bytes := log.reverse.flatMap Event.readData

@[simp]
theorem acceptedBytes_cons (e : Event) (log : List Event) :
    acceptedBytes (e :: log) = acceptedBytes log ++ e.acceptedData := by
  simp [acceptedBytes]

@[simp]
theorem readBytes_cons (e : Event) (log : List Event) :
    readBytes (e :: log) = readBytes log ++ e.readData := by
  simp [readBytes]

/-- What is accepted and not yet read. -/
def ConnState.unread (s : ConnState) : Bytes := s.rdata ++ s.buffer.flatten

/-! ## The loop of `Read` -/

/-- The result of a `Read` and what it leaves behind. -/
structure ReadLeaves (s s₁ : ConnState) (rdata : Bytes) (buffer : List Bytes) (data : Bytes) :
    Prop where
  frame : ∃ now, s₁ = { s with rdata := s₁.rdata, buffer := s₁.buffer, now := now }
  bytes : rdata ++ buffer.flatten = data ++ s₁.unread
  length : s₁.buffer.length ≤ buffer.length

/-- The bytes a `Read` returned. -/
def ReadResult.data : ReadResult → Bytes
  | .ok data => data
  | .failed _ => []

/-- What may come out of `Read` in a state. -/
def ReadResult.FromRead (s s₁ : ConnState) (n : Nat) : ReadResult → Prop
  | .ok data => s.localClosed = false ∧ (0 < n → data ≠ []) ∧ data.length ≤ n
  | .failed err => (s.localClosed = true ∧ err = .errClosed) ∨
      (s.localClosed = false ∧ (err = .deadlineExceeded ∨
        (s.closed = true ∧ s₁.unread = [] ∧ err = s.closeErr.getD .eof)))

/-- The specification of the loop, from given leftovers and payloads. -/
structure ReadSpec (s : ConnState) (n : Nat) (rdata : Bytes) (buffer : List Bytes)
    (r : ConnState × Option ReadResult) : Prop where
  leaves : ReadLeaves s r.1 rdata buffer ((r.2.map ReadResult.data).getD [])
  result : ∀ result, r.2 = some result → result.FromRead s r.1 n
  waits : r.2 = none → s.closed = false ∧ s.localClosed = false

theorem readLoop_spec (s : ConnState) (n : Nat) (buffer : List Bytes) :
    ∀ (rdata : Bytes) (now : Time) (elapsed : List Nat),
      ReadSpec s n rdata buffer (s.readLoop n rdata buffer now elapsed) := by
  -- A `Read` that fails where it stands.
  have hfail : ∀ {rdata : Bytes} {buffer : List Bytes} {now : Time} {err : ConnError},
      ReadResult.FromRead s { s with rdata := rdata, buffer := buffer, now := now } n
        (.failed err) →
      ReadSpec s n rdata buffer
        ({ s with rdata := rdata, buffer := buffer, now := now }, some (.failed err)) := by
    intro rdata buffer now err herr
    refine ⟨⟨⟨now, rfl⟩, rfl, Nat.le_refl _⟩, fun result hr => ?_, fun hr => nomatch hr⟩
    cases hr
    exact herr
  -- A `Read` that finds something left.
  have htake : ∀ {rdata : Bytes} {buffer : List Bytes} {now : Time}, s.localClosed = false →
      rdata ≠ [] →
      ReadSpec s n rdata buffer
        ({ s with rdata := rdata.drop n, buffer := buffer, now := now },
          some (.ok (rdata.take n))) := by
    intro rdata buffer now hlocal hr
    refine ⟨⟨⟨now, rfl⟩, ?_, Nat.le_refl _⟩, fun result hres => ?_, fun hr => nomatch hr⟩
    · change rdata ++ buffer.flatten = rdata.take n ++ (rdata.drop n ++ buffer.flatten)
      rw [← List.append_assoc, List.take_append_drop]
    · cases hres
      refine ⟨hlocal, fun hn hnil => ?_, List.length_take_le _ _⟩
      rcases List.take_eq_nil_iff.mp hnil with h0 | h0
      · omega
      · exact hr h0
  induction buffer with
  | nil =>
      intro rdata now elapsed
      rw [ConnState.readLoop]
      dsimp only
      split
      · next hlocal => exact hfail (Or.inl ⟨hlocal, rfl⟩)
      · next hlocal =>
          have hlocal := Bool.eq_false_iff.mpr hlocal
          split
          · exact hfail (Or.inr ⟨hlocal, Or.inl rfl⟩)
          · split
            · next hr => exact htake hlocal hr
            · next hr =>
                have hr : rdata = [] := not_not.mp hr
                subst hr
                split
                · next hclosed => exact hfail (Or.inr ⟨hlocal, Or.inr ⟨hclosed, rfl, rfl⟩⟩)
                · next hclosed =>
                    refine ⟨⟨⟨_, rfl⟩, rfl, Nat.le_refl _⟩, (fun result hr => nomatch hr),
                      fun _ => ?_⟩
                    exact ⟨Bool.eq_false_iff.mpr hclosed, hlocal⟩
  | cons data buffer ih =>
      intro rdata now elapsed
      rw [ConnState.readLoop]
      dsimp only
      split
      · next hlocal => exact hfail (Or.inl ⟨hlocal, rfl⟩)
      · next hlocal =>
          have hlocal := Bool.eq_false_iff.mpr hlocal
          split
          · exact hfail (Or.inr ⟨hlocal, Or.inl rfl⟩)
          · split
            · next hr => exact htake hlocal hr
            · next hr =>
                have hr : rdata = [] := not_not.mp hr
                subst hr
                obtain ⟨⟨hframe, hbytes, hlen⟩, hres, hwaits⟩ :=
                  ih data (now + elapsed.headD 0) elapsed.tail
                exact ⟨⟨hframe, hbytes, Nat.le_succ_of_le hlen⟩, hres, hwaits⟩

/-! ## The invariant -/

/-- What an event of the receive side says about the log before it. -/
def Event.ReadJustified : Event → List Event → Prop
  | .accepted _, log => .closedLocally ∉ log ∧ .closedByAgent ∉ log
  | .refused _ err, log => err = .errClosed ∧ (.closedLocally ∈ log ∨ .closedByAgent ∈ log)
  | .readReturned n (.ok data), log => .closedLocally ∉ log ∧ (0 < n → data ≠ []) ∧ data.length ≤ n
  | .readReturned _ (.failed err), log =>
      (.closedLocally ∈ log → err = .errClosed) ∧
        (.closedLocally ∉ log → err = .deadlineExceeded ∨
          (.closedByAgent ∈ log ∧ acceptedBytes log = readBytes log))
  | _, _ => True

structure RecvInv (s : ConnState) : Prop where
  room : 0 < s.maxBuffered
  bounded : s.buffer.length ≤ s.maxBuffered
  stream : acceptedBytes s.log = readBytes s.log ++ s.unread
  locally : s.localClosed = true ↔ .closedLocally ∈ s.log
  closed : s.closed = true ↔ .closedLocally ∈ s.log ∨ .closedByAgent ∈ s.log
  justified : Pool.Each Event.ReadJustified s.log

/-! ## Steps -/

/-- The events of the send side. -/
def Event.sending : Event → Bool
  | .sendStarted _ | .sent _ _ _ | .wrote _ _ _ | .timedOut => true
  | _ => false

section Steps

variable {s s₁ : ConnState} {t : Tid} {c : Choice} {op : Op} {ops : List Op}
  {start : Option (Tid × List Op)}

theorem sending_append {es : List Event} (hes : ∀ e ∈ es, e.sending = true) (log : List Event) :
    acceptedBytes (es ++ log) = acceptedBytes log ∧ readBytes (es ++ log) = readBytes log ∧
      (.closedLocally ∈ es ++ log ↔ .closedLocally ∈ log) ∧
      (.closedByAgent ∈ es ++ log ↔ .closedByAgent ∈ log) ∧
      (Pool.Each Event.ReadJustified log → Pool.Each Event.ReadJustified (es ++ log)) := by
  induction es with
  | nil => exact ⟨rfl, rfl, Iff.rfl, Iff.rfl, id⟩
  | cons e es ih =>
      obtain ⟨h1, h2, h3, h4, h5⟩ := ih fun x hx => hes x (List.mem_cons_of_mem _ hx)
      have he := hes e List.mem_cons_self
      have hsilent : e.acceptedData = [] ∧ e.readData = [] ∧ .closedLocally ≠ e ∧
          .closedByAgent ≠ e ∧ ∀ log, e.ReadJustified log := by
        cases e <;> simp only [Event.sending, Bool.false_eq_true] at he
        all_goals exact ⟨rfl, rfl, nofun, nofun, fun _ => trivial⟩
      obtain ⟨ha, hr, hl, hc, hj⟩ := hsilent
      refine ⟨?_, ?_, ?_, ?_, fun h => ⟨hj _, h5 h⟩⟩
      · rw [List.cons_append, acceptedBytes_cons, ha, List.append_nil, h1]
      · rw [List.cons_append, readBytes_cons, hr, List.append_nil, h2]
      · rw [List.cons_append, List.mem_cons, h3, or_iff_right hl]
      · rw [List.cons_append, List.mem_cons, h4, or_iff_right hc]

/-- A step of the send side. -/
theorem RecvInv.aside (h : RecvInv s) (es : List Event) (hlog : s₁.log = es ++ s.log)
    (hes : ∀ e ∈ es, e.sending = true) (hbuffer : s₁.buffer = s.buffer)
    (hrdata : s₁.rdata = s.rdata)
    (hmax : s₁.maxBuffered = s.maxBuffered) (hclosed : s₁.closed = s.closed)
    (hlocal : s₁.localClosed = s.localClosed) : RecvInv s₁ := by
  obtain ⟨h1, h2, h3, h4, h5⟩ := sending_append hes s.log
  refine ⟨hmax ▸ h.room, ?_, ?_, ?_, ?_, ?_⟩
  · rw [hbuffer, hmax]
    exact h.bounded
  · rw [hlog, h1, h2, ConnState.unread, hbuffer, hrdata]
    exact h.stream
  · rw [hlocal, hlog, h3]
    exact h.locally
  · rw [hclosed, hlog, h3, h4]
    exact h.closed
  · rw [hlog]
    exact h5 h.justified

/-- The operations of the receive side. -/
def Op.receiving : Op → Bool
  | .handleData _ | .handleClose _ | .read _ | .closeLocked => true
  | _ => false

theorem RecvInv.exec_sending (h : RecvInv s) (hop : op.receiving = false)
    (hex : exec s t c op = some (s₁, ops, start)) : RecvInv s₁ := by
  cases op with
  | select i deadline changed w =>
      simp only [exec] at hex
      obtain ⟨x, -, heq⟩ := Option.map_eq_some_iff.mp hex
      cases heq
      exact h
  | _ =>
      first
      | cases hop
        done
      | simp only [exec] at hex
        repeat' split at hex
        all_goals cases hex
        all_goals first
          | exact h
          | exact h.aside [] rfl (by simp) rfl rfl rfl rfl rfl
          | exact h.aside [_] rfl (by simp [Event.sending]) rfl rfl rfl rfl rfl

theorem RecvInv.exec_read (h : RecvInv s) {n : Nat}
    (hex : exec s t c (.read n) = some (s₁, ops, start)) : RecvInv s₁ := by
  have hspec := readLoop_spec s n s.buffer s.rdata s.now c.elapsed
  simp only [exec] at hex
  generalize s.readLoop n s.rdata s.buffer s.now c.elapsed = r at hex hspec
  obtain ⟨s', result⟩ := r
  obtain ⟨⟨⟨now, hframe⟩, hbytes, hlen⟩, hres, -⟩ := hspec
  dsimp only at hframe hbytes hlen hres
  have hlog : s'.log = s.log := by rw [hframe]
  have hmax : s'.maxBuffered = s.maxBuffered := by rw [hframe]
  have hclosed : s'.closed = s.closed := by rw [hframe]
  have hlocal : s'.localClosed = s.localClosed := by rw [hframe]
  have hbounded : s'.buffer.length ≤ s'.maxBuffered := hmax ▸ Nat.le_trans hlen h.bounded
  have hstream := h.stream
  rw [ConnState.unread, hbytes] at hstream
  cases result with
  | none =>
      cases hex
      refine ⟨hmax ▸ h.room, hbounded, ?_, ?_, ?_, hlog ▸ h.justified⟩
      · rw [hlog]
        simpa using hstream
      · rw [hlocal, hlog]
        exact h.locally
      · rw [hclosed, hlog]
        exact h.closed
  | some result =>
      cases hex
      refine ⟨hmax ▸ h.room, hbounded, ?_, ?_, ?_, ?_⟩
      · rw [ConnState.record_log, hlog]
        cases result with
        | ok data =>
            simpa [Event.acceptedData, Event.readData, ReadResult.data, ConnState.unread]
              using hstream
        | failed err =>
            simpa [Event.acceptedData, Event.readData, ReadResult.data, ConnState.unread]
              using hstream
      · simpa [hlocal, hlog] using h.locally
      · simpa [hclosed, hlog] using h.closed
      · rw [ConnState.record_log, hlog]
        refine ⟨?_, h.justified⟩
        have hfrom := hres result rfl
        cases result with
        | ok data =>
            obtain ⟨h1, h2, h3⟩ := hfrom
            refine ⟨fun hin => ?_, h2, h3⟩
            rw [h.locally.mpr hin] at h1
            cases h1
        | failed err =>
            constructor
            · intro hin
              rcases hfrom with ⟨-, he⟩ | ⟨hl, -⟩
              · exact he
              · rw [h.locally.mpr hin] at hl
                cases hl
            · intro hnot
              rcases hfrom with ⟨hl, -⟩ | ⟨-, he | ⟨hc, hnil, -⟩⟩
              · exact absurd (h.locally.mp hl) hnot
              · exact Or.inl he
              · refine Or.inr ⟨(h.closed.mp hc).resolve_left hnot, ?_⟩
                rw [hnil] at hstream
                simpa [ReadResult.data] using hstream

theorem RecvInv.exec (h : RecvInv s) (hex : exec s t c op = some (s₁, ops, start)) :
    RecvInv s₁ := by
  cases op with
  | handleData data =>
      simp only [Conn.exec] at hex
      split at hex
      · next hclosed =>
          cases hex
          refine ⟨h.room, h.bounded, ?_, ?_, ?_, ⟨rfl, h.closed.mp hclosed⟩, h.justified⟩
          · simpa [Event.acceptedData, Event.readData, ConnState.unread] using h.stream
          · simpa using h.locally
          · simpa using h.closed
      · next hopen =>
          split at hex
          · cases hex
            exact h
          · next hroom =>
              cases hex
              have hopen : ¬ (.closedLocally ∈ s.log ∨ .closedByAgent ∈ s.log) :=
                fun hc => hopen (h.closed.mpr hc)
              rw [not_or] at hopen
              refine ⟨h.room, ?_, ?_, ?_, ?_, ⟨hopen, h.justified⟩⟩
              · simp only [ConnState.record_buffer, ConnState.record_maxBuffered,
                  List.length_append, List.length_singleton]
                omega
              · have := h.stream
                simp only [ConnState.unread] at this
                simp [Event.acceptedData, Event.readData, ConnState.unread, this]
              · simpa using h.locally
              · simpa using h.closed
  | handleClose errMsg =>
      simp only [Conn.exec] at hex
      split at hex
      · cases hex
        exact h
      · cases hex
        refine ⟨h.room, h.bounded, ?_, ?_, ?_, trivial, h.justified⟩
        · simpa [Event.acceptedData, Event.readData, ConnState.unread] using h.stream
        · simpa using h.locally
        · simp
  | read n => exact h.exec_read hex
  | closeLocked =>
      simp only [Conn.exec] at hex
      cases hex
      refine ⟨h.room, h.bounded, ?_, by simp, by simp, trivial, h.justified⟩
      simpa [Event.acceptedData, Event.readData, ConnState.unread] using h.stream
  | _ => exact h.exec_sending rfl hex

theorem RecvInv.arrive (h : RecvInv s) {a : ConnAction} (harr : arrive s a = some (s₁, start)) :
    RecvInv s₁ := by
  cases a <;> simp only [Conn.arrive] at harr <;> repeat' split at harr
  all_goals cases harr
  all_goals exact h.aside [] rfl (by simp) rfl rfl rfl rfl rfl

end Steps

theorem serverConn_recv {connID : ConnectID} {size : Nat}
    {okExec : ConnState → Tid → Choice → Op → Prop} {okArrive : ConnState → ConnAction → Prop}
    {s : System.State ConnState Tid Op}
    (h : Reach serverConn.step (System.Allowed okExec okArrive) (newServerConn connID size) s) :
    RecvInv s.shared := by
  refine System.invariant_state (fun s => RecvInv s.shared) ?_ ?_ ?_ h
  · refine ⟨?_, Nat.zero_le _, rfl, by simp [newServerConn], by simp [newServerConn], trivial⟩
    exact Nat.lt_of_lt_of_le Nat.one_pos (Nat.le_max_right _ _)
  · intro s t c o rest s₁ ops start _ hinv _ _ _ hex
    exact hinv.exec hex
  · intro s a s₁ start threads _ hinv _ _ harr _
    exact hinv.arrive harr

/-! ## A faithful byte stream -/

structure FaithfulStream (s : ConnState) : Prop where
  inOrder : readBytes s.log <+: acceptedBytes s.log
  /-- Nothing is lost: what was not read yet is still there. -/
  kept : acceptedBytes s.log = readBytes s.log ++ s.unread
  bounded : s.buffer.length ≤ s.maxBuffered
  progress : ∀ n data, .readReturned n (.ok data) ∈ s.log → 0 < n → data ≠ []
  /-- Before a local close an error is a deadline, or the agent closed the
  connection and everything accepted has been read. -/
  failed : ∀ later n err earlier, s.log = later ++ Event.readReturned n (.failed err) :: earlier →
    .closedLocally ∉ earlier → err = .deadlineExceeded ∨
      (.closedByAgent ∈ earlier ∧ acceptedBytes earlier = readBytes earlier)
  /-- A `Read` that fails takes nothing with it. -/
  harmless : ∀ t c n s₁ ops start err, exec s t c (.read n) = some (s₁, ops, start) →
    s₁.log = .readReturned n (.failed err) :: s.log → s₁.unread = s.unread
  readClosed : s.localClosed = true → ∀ t c n, ∃ s₁, exec s t c (.read n) = some (s₁, [], none) ∧
    s₁.log = .readReturned n (.failed .errClosed) :: s.log
  dataClosed : s.localClosed = true → ∀ t c data,
    exec s t c (.handleData data) = some (s.record (.refused data .errClosed), [], none)

end Konnectivity.Server.Conn
