import Konnectivity.Proofs.DialOnce
import Konnectivity.Proofs.Sequence

/-!
# Dials whose agent stream ends

When the stream of an agent ends, its dispatcher fails the dials that are
pending for it. A handler that chose the backend before that may enter its
dial after it and still send the `DIAL_REQ`: then nobody is left who would
answer the dial. Apart from these runs every dial is accounted for: it is
pending, or some goroutine has the right to answer it, or it was answered, or
its frontend withdrew it or went away.
-/

namespace Konnectivity

open Lib

/-! ## The condition on the runs -/

/-- The stream and the dial of a `DIAL_REQ` that is sent for a frontend stream. -/
def Op.dialSend : Op → Option (BackendId × DialID)
  | .sendBackend (some b) _ (.dialReq _ r) => some (b, r)
  | _ => none

/-- No `DIAL_REQ` is sent successfully for a dial that is pending on a stream
whose pending dials have been failed before. -/
def SentInTime (s : ServerState) (_ : Tid) (c : Choice) (op : Op) : Prop :=
  ∀ b r, op.dialSend = some (b, r) → c.ok = true → .failedPending b ∈ s.log →
    s.pendingDial.pendingDial.lookup r = none

/-- A frontend withdraws only dials of its own. -/
def OwnCancel (s : ServerState) : ServerAction → Prop
  | .receive u pkt => pkt.type = .dialCls → ∀ r, pkt.answersDial = some r →
      HasDial s.log (proxyFrontend u) r
  | _ => True

/-- Dial IDs are distinct and frontends withdraw only their own. -/
def OwnDials (s : ServerState) (a : ServerAction) : Prop :=
  DistinctDials s a ∧ OwnCancel s a

/-- The event shows that the frontend has the dial. -/
def Event.beginsFor (f : Frontend) (r : DialID) : Event → Bool
  | .fromFrontend f' pkt => f' == f && pkt.requestsDial == some r
  | .dialing f' _ r' => f' == f && r' == r
  | _ => false

theorem hasDial_iff_beginsFor {log : List Event} {f : Frontend} {r : DialID} :
    (log.any (Event.beginsFor f r)) = true ↔ HasDial log f r := by
  rw [List.any_eq_true]
  constructor
  · rintro ⟨e, he, hb⟩
    cases e with
    | fromFrontend f' pkt =>
        simp only [Event.beginsFor, Bool.and_eq_true, beq_iff_eq] at hb
        exact Or.inl ⟨pkt, hb.1 ▸ he, hb.2⟩
    | dialing f' b r' =>
        simp only [Event.beginsFor, Bool.and_eq_true, beq_iff_eq] at hb
        exact Or.inr ⟨b, hb.1 ▸ hb.2 ▸ he⟩
    | _ => cases hb
  · rintro (⟨pkt, hp, hr⟩ | ⟨b, hd⟩)
    · exact ⟨_, hp, by simp [Event.beginsFor, hr]⟩
    · exact ⟨_, hd, by simp [Event.beginsFor]⟩

instance OwnCancel.decidable (s : ServerState) : ∀ a, Decidable (OwnCancel s a)
  | .receive u pkt =>
      match hr : pkt.answersDial with
      | none => isTrue fun _ r hr' => by rw [hr] at hr'; cases hr'
      | some r =>
          decidable_of_iff
            (pkt.type = .dialCls → (s.log.any (Event.beginsFor (proxyFrontend u) r)) = true)
            ⟨fun h ht r' hr' => by
                rw [hr] at hr'
                cases hr'
                exact hasDial_iff_beginsFor.mp (h ht),
              fun h ht => hasDial_iff_beginsFor.mpr (h ht r hr)⟩
  | .connect _ => isTrue trivial
  | .deliver _ _ => isTrue trivial
  | .recvEnd _ _ => isTrue trivial
  | .drained _ => isTrue trivial
  | .disconnect _ => isTrue trivial
  | .ctxDone _ => isTrue trivial
  | .openStream _ _ => isTrue trivial
  | .shutdown _ => isTrue trivial
  | .dial _ _ _ _ _ => isTrue trivial
  | .userClose _ => isTrue trivial
  | .watchClose _ => isTrue trivial

instance OwnDials.decidable (s : ServerState) (a : ServerAction) : Decidable (OwnDials s a) :=
  inferInstanceAs (Decidable (DistinctDials s a ∧ OwnCancel s a))

instance SentInTime.decidable (s : ServerState) (t : Tid) (c : Choice) (op : Op) :
    Decidable (SentInTime s t c op) :=
  match hd : op.dialSend with
  | none => isTrue fun b r hd' => by rw [hd] at hd'; cases hd'
  | some (b, r) =>
      decidable_of_iff (c.ok = true → .failedPending b ∈ s.log →
          s.pendingDial.pendingDial.lookup r = none)
        ⟨fun h b' r' hd' => by rw [hd] at hd'; cases hd'; exact h, fun h => h b r hd⟩

/-! ## Every dial is accounted for -/

/-- The dial is pending, or there is somebody to answer it, or it was answered. -/
def Accounted (s : System.State ServerState Tid Op) (r : DialID) : Prop :=
  Pool.Held Op.tokens s.threads r ∨
    (∃ p, s.shared.pendingDial.pendingDial.lookup r = some p) ∨ 0 < answers s.shared.log r

/-- The operation takes the pending dial away without an answer. -/
def Op.drops (s : ServerState) (r : DialID) : Op → Prop
  | .pendingRemove r' k => r' = r ∧
      (k = .cancel ∨ (∃ b tell, k = .failDial b tell) ∨ k = .closeConn)
  | .pendingRemoveForStream u =>
      ∃ p, s.pendingDial.pendingDial.lookup r = some p ∧ p.ofStream u = true
  | _ => False

section Exec

variable {cfg : ServerConfig} {s : System.State ServerState Tid Op} {s₁ : ServerState} {t : Tid}
  {c : Choice} {op : Op} {ops rest : List Op} {start : Option (Tid × List Op)}

/-- A token that is used up has answered the dial or made it pending. -/
theorem exec_token_kept {s : ServerState} (hop : op.Origin cfg s.log t)
    (hpanic : s₁.panic ≠ some .closeOfClosedChannel)
    (hex : exec cfg s t c op = some (s₁, ops, start)) {r : DialID} (hr : r ∈ op.tokens) :
    r ∈ ops.flatMap Op.tokens ∨ (∃ p, s₁.pendingDial.pendingDial.lookup r = some p) ∨
      0 < answers s₁.log r := by
  cases op with
  | pendingAdd r' p =>
      obtain rfl : r = r' := by simpa [Op.tokens] using hr
      refine Or.inr (Or.inl ⟨p, ?_⟩)
      rw [exec_pending hop hex]
      simp [Op.pendingAfter]
  | selectBackend f req pkt =>
      obtain rfl : r = req.random := by simpa [Op.tokens] using hr
      simp only [exec] at hex
      split at hex
      · cases hex
        exact Or.inl (by simp [Op.tokens, Packet.newDialFailure, Packet.ofDialResponse,
          Packet.answersDial])
      · split at hex <;> cases hex
        exact Or.inl (by simp [Op.tokens])
  | sendFrontend f pkt k =>
      have hans : pkt.answersDial = some r := by simpa [Op.tokens] using hr
      obtain ⟨-, f', rfl, -⟩ := hop
      simp only [exec] at hex
      split at hex <;> cases hex
      next ok hsend =>
        rcases (sendFrontend_cases hsend).2.2 with hlog | ⟨-, hcrash⟩
        · refine Or.inr (Or.inr ?_)
          have : (Event.toFrontend t f' pkt ok).answered = some r := hans
          rw [hlog, answers_cons, if_pos this]
          exact Nat.succ_pos _
        · exact absurd hcrash hpanic
  | _ => cases hr

/-- A dial that is no longer pending was claimed or dropped. -/
theorem exec_pending_kept {s : ServerState} (hG : SharedOrigin cfg s)
    (hop : op.Origin cfg s.log t) (hex : exec cfg s t c op = some (s₁, ops, start)) {r : DialID}
    {p : ProxyClientConnection} (hp : s.pendingDial.pendingDial.lookup r = some p) :
    (∃ p', s₁.pendingDial.pendingDial.lookup r = some p') ∨ r ∈ ops.flatMap Op.tokens ∨
      op.drops s r := by
  have hafter := exec_pending hop hex r
  cases op with
  | pendingAdd r' p' =>
      simp only [Op.pendingAfter] at hafter
      split at hafter
      · exact Or.inl ⟨p', hafter⟩
      · exact Or.inl ⟨p, by rw [hafter, hp]⟩
  | pendingRemove r' k =>
      simp only [Op.pendingAfter] at hafter
      split at hafter
      · next heq =>
          subst heq
          simp only [exec] at hex
          cases hex
          rw [PendingDialManager.remove_fst, hp]
          cases k with
          | dialRsp b resp pkt =>
              obtain ⟨-, hr, htype, hpay, -⟩ := hop
              have hans : pkt.answersDial = some r := by
                simp [Packet.answersDial, htype, hpay, hr]
              refine Or.inr (Or.inl ?_)
              simp only [AfterRemove.next]
              split <;> simp [Op.tokens, hans]
          | dialCls pkt =>
              have hans : pkt.answersDial = some r := by
                simp [Packet.answersDial, hop.1, hop.2]
              exact Or.inr (Or.inl (by simp [AfterRemove.next, Op.tokens, hans]))
          | sendFailed f err =>
              exact Or.inr (Or.inl (List.mem_cons_self))
          | timeout f => exact Or.inr (Or.inl (List.mem_cons_self))
          | cancel => exact Or.inr (Or.inr ⟨rfl, Or.inl rfl⟩)
          | failDial b tell => exact Or.inr (Or.inr ⟨rfl, Or.inr (Or.inl ⟨b, tell, rfl⟩)⟩)
          | closeConn => exact Or.inr (Or.inr ⟨rfl, Or.inr (Or.inr rfl)⟩)
      · exact Or.inl ⟨p, by rw [hafter, hp]⟩
  | pendingRemoveForBackend b =>
      simp only [Op.pendingAfter, hp] at hafter
      by_cases hb : p.backend = some b
      · simp only [exec] at hex
        split at hex <;> cases hex
        next hperm =>
          have hmem : p ∈ c.order := by
            rw [hperm.mem_iff, PendingDialManager.mem_removeForBackend]
            exact ⟨r, hp, hb⟩
          refine Or.inr (Or.inl (List.mem_flatMap.mpr ⟨_, List.mem_map.mpr ⟨p, hmem, rfl⟩, ?_⟩))
          have hid := (hG.pending r p hp).1
          rw [← hid]
          exact List.mem_singleton.mpr rfl
      · exact Or.inl ⟨p, by rw [hafter]; simp [Option.filter, hb]⟩
  | pendingRemoveForStream u =>
      simp only [Op.pendingAfter, hp] at hafter
      cases hu : p.ofStream u with
      | true => exact Or.inr (Or.inr ⟨p, hp, hu⟩)
      | false => exact Or.inl ⟨p, by rw [hafter]; simp [Option.filter, hu]⟩
  | _ => exact Or.inl ⟨p, by rw [hafter, ← hp]; rfl⟩

theorem Accounted.exec {r : DialID} (h : Accounted s r) (hG : SharedOrigin cfg s.shared)
    (hop : op.Origin cfg s.shared.log t) (hpanic : s₁.panic ≠ some .closeOfClosedChannel)
    (ht : s.threads t = op :: rest)
    (hex : exec cfg s.shared t c op = some (s₁, ops, start)) :
    Accounted ⟨s₁, Function.update s.threads t (ops ++ rest)⟩ r ∨ op.drops s.shared r := by
  have hnew : r ∈ ops.flatMap Op.tokens →
      Accounted ⟨s₁, Function.update s.threads t (ops ++ rest)⟩ r := by
    intro hr
    obtain ⟨o, ho, hr⟩ := List.mem_flatMap.mp hr
    exact Or.inl (Pool.Has.pushed ho hr)
  rcases h with ⟨x, o, ho, hr⟩ | ⟨p, hp⟩ | hans
  · rcases Pool.mem_push ho ht with ⟨-, rfl⟩ | ho
    · rcases exec_token_kept hop hpanic hex hr with hr | hp | hans
      · exact Or.inl (hnew hr)
      · exact Or.inl (Or.inr (Or.inl hp))
      · exact Or.inl (Or.inr (Or.inr hans))
    · exact Or.inl (Or.inl ⟨x, o, ho, hr⟩)
  · rcases exec_pending_kept hG hop hex hp with hp | hr | hd
    · exact Or.inl (Or.inr (Or.inl hp))
    · exact Or.inl (hnew hr)
    · exact Or.inr hd
  · refine Or.inl (Or.inr (Or.inr ?_))
    rcases (exec_tokens hG hop hex).1.answers r with heq | ⟨-, -, -, heq⟩ <;> simp only <;> omega

end Exec

/-! ## The invariant -/

/-- An operation that still settles what becomes of the dial at the backend. -/
def Op.settles (b : BackendId) (r : DialID) (op : Op) : Prop :=
  (∃ pkt f, op = .sendBackend (some b) pkt (.dialReq f r)) ∨
    ∃ f err, op = .pendingRemove r (.sendFailed f err)

structure DialEndInv (s : System.State ServerState Tid Op) : Prop where
  cancelled : ∀ f r, Cancelled s.shared.log f r → HasDial s.shared.log f r
  accounted : ∀ u r, HasDial s.shared.log (proxyFrontend u) r →
    Accounted s r ∨ Cancelled s.shared.log (proxyFrontend u) r ∨ .frontendGone u ∈ s.shared.log
  -- A dial is pending on a stream that failed its pending dials only until it is sent.
  waiting : ∀ u b r p, .dialing (proxyFrontend u) b r ∈ s.shared.log →
    s.shared.pendingDial.pendingDial.lookup r = some p → .failedPending b ∈ s.shared.log →
    ∃ o ∈ s.threads (.proxy u), o.settles b r
  exiting : ∀ b, .exitDispatcher b ∈ s.threads (.dispatcher b) →
    .pendingRemoveForBackend b ∈ s.threads (.dispatcher b) ∨ .failedPending b ∈ s.shared.log
  exited : ∀ b, (s.shared.backends b).exited = true → .failedPending b ∈ s.shared.log
  gone : ∀ u, .pendingRemoveForStream u ∈ s.threads (.proxy u) → .frontendGone u ∈ s.shared.log

theorem Cancelled.mono {log log' : List Event} (hsub : log ⊆ log') {f : Frontend} {r : DialID}
    (h : Cancelled log f r) : Cancelled log' f r := by
  obtain ⟨pkt, hp, hr⟩ := h
  exact ⟨pkt, hsub hp, hr⟩

section Steps

variable {cfg : ServerConfig} {s : System.State ServerState Tid Op} {s₁ : ServerState} {t : Tid}
  {c : Choice} {op : Op} {ops rest : List Op} {start : Option (Tid × List Op)}

/-- An operation leaves what it knows of a stream alone, the exit apart. -/
theorem exec_backends {s : ServerState} (hex : exec cfg s t c op = some (s₁, ops, start))
    (b : BackendId) : s₁.backends b = s.backends b ∨
      (op = .exitDispatcher b ∧ s₁.backends b = { s.backends b with exited := true }) := by
  cases op with
  | exitDispatcher b' =>
      simp only [exec] at hex
      cases hex
      by_cases hb : b = b'
      · subst hb
        exact Or.inr ⟨rfl, by simp⟩
      · exact Or.inl (by simp [Function.update_of_ne hb])
  | addEstablished b' cid p =>
      simp only [exec] at hex
      cases hex
      split <;> exact Or.inl rfl
  | sendFrontend f pkt k =>
      simp only [exec] at hex
      split at hex
      · cases hex
        exact Or.inl rfl
      · split at hex <;> cases hex
        next hsend =>
          simp only [ServerState.sendFrontend] at hsend
          repeat' split at hsend
          all_goals cases hsend
          all_goals exact Or.inl rfl
  | _ =>
      simp only [exec] at hex
      repeat' split at hex
      all_goals cases hex
      all_goals exact Or.inl rfl

/-- A dial that is dropped was withdrawn by its frontend, or its frontend went away. -/
theorem DialEndInv.dropped (h : DialEndInv s) (hc : CustodyInv s)
    (hG : SharedOrigin cfg s.shared) (hop : op.Origin cfg s.shared.log t)
    (ht : s.threads t = op :: rest) {u : StreamUID} {r : DialID}
    (hd : HasDial s.shared.log (proxyFrontend u) r) (hsub : s.shared.log ⊆ s₁.log)
    (hdrop : op.drops s.shared r) :
    Cancelled s₁.log (proxyFrontend u) r ∨ .frontendGone u ∈ s₁.log := by
  have notConn : ∀ f b, f.stream = .serverConn r → .dialing f b r ∈ s.shared.log → False := by
    intro f b hf hdial
    rw [hc.frontend f (proxyFrontend u) r (Or.inr ⟨b, hdial⟩) hd] at hf
    cases hf
  cases op with
  | pendingRemove r' k =>
      obtain ⟨rfl, rfl | ⟨b, tell, rfl⟩ | rfl⟩ := hdrop
      · obtain ⟨f, -, hcan⟩ := hop
        rw [hc.frontend f (proxyFrontend u) r' (h.cancelled f r' hcan) hd] at hcan
        exact Or.inl (hcan.mono hsub)
      · obtain ⟨-, f, hf, hdial⟩ := hop
        exact absurd hdial fun hdial => notConn f b hf hdial
      · obtain ⟨-, f, b, hf, hdial⟩ := hop
        exact absurd hdial fun hdial => notConn f b hf hdial
  | pendingRemoveForStream u' =>
      obtain ⟨p, hp, hu⟩ := hdrop
      obtain ⟨hid, f, b, hf, -, hdial⟩ := hG.pending r p hp
      have hfu : f = proxyFrontend u :=
        hc.frontend f (proxyFrontend u) r (Or.inr ⟨b, hid ▸ hdial⟩) hd
      have huu : u' = u := by
        simp only [ProxyClientConnection.ofStream, hf, hfu] at hu
        exact (of_decide_eq_true hu).symm
      subst huu
      obtain ⟨rfl, -⟩ := hop
      exact Or.inr (hsub (h.gone u' (by rw [ht]; exact List.mem_cons_self)))
  | _ => exact hdrop.elim

theorem DialEndInv.waiting_exec (h : DialEndInv s) (hc : CustodyInv s)
    (hG : SharedOrigin cfg s.shared)
    (hP : Pool.All (fun t o => o.Origin cfg s.shared.log t) s.threads) (hthen : op.Then rest)
    (ht : s.threads t = op :: rest) (hok : SentInTime s.shared t c op)
    (hex : exec cfg s.shared t c op = some (s₁, ops, start)) (u : StreamUID) (b : BackendId)
    (r : DialID) (p : ProxyClientConnection) (hdial : .dialing (proxyFrontend u) b r ∈ s₁.log)
    (hafter : s₁.pendingDial.pendingDial.lookup r = some p)
    (hnew : .failedPending b ∈ s₁.log) :
    ∃ o ∈ Function.update s.threads t (ops ++ rest) (.proxy u), o.settles b r := by
  have hmem : op ∈ s.threads t := by rw [ht]; exact List.mem_cons_self
  have hop := hP t op hmem
  rw [exec_pending hop hex] at hafter
  -- A dial that has just found its backend is not pending.
  have hdial : .dialing (proxyFrontend u) b r ∈ s.shared.log := by
    refine (exec_event hop hex hdial).resolve_right fun hadd => ?_
    cases op with
    | selectBackend f req pkt =>
        obtain ⟨b', heq⟩ := hadd
        cases heq
        have hnone := (hc.held req.random ⟨t, _, hmem, List.mem_singleton.mpr rfl⟩).1
        simp only [Op.pendingAfter, hnone] at hafter
        cases hafter
    | _ => simp [Op.Adds] at hadd
  have hbackend : ∀ {f b'}, .dialing f b' r ∈ s.shared.log → f = proxyFrontend u ∧ b' = b :=
    fun hd => ⟨hc.frontend _ _ r (Or.inr ⟨_, hd⟩) (Or.inr ⟨b, hdial⟩),
      hc.backend _ _ _ _ r hd hdial⟩
  by_cases hadd : ∃ p', op = .pendingAdd r p'
  · -- The `DIAL_REQ` of a dial that has just been entered is sent next.
    obtain ⟨p', rfl⟩ := hadd
    obtain ⟨f, b', pkt, hf, hb, hcase⟩ := hthen
    obtain ⟨hid, ⟨f', b'', hf', hb', hd⟩, htid⟩ := hop
    rw [hf] at hf'
    rw [hb] at hb'
    cases hf'
    cases hb'
    obtain ⟨rfl, rfl⟩ := hbackend (hid ▸ hd)
    obtain rfl : t = .proxy u := htid _ hf
    rcases hcase with ⟨-, rfl⟩ | ⟨hstream, -⟩
    · exact ⟨.sendBackend (some b') pkt (.dialReq (proxyFrontend u) r),
        by rw [Function.update_self]; exact List.mem_append_right _ (List.mem_singleton.mpr rfl),
        Or.inl ⟨pkt, _, rfl⟩⟩
    · cases hstream
  · have hp : s.shared.pendingDial.pendingDial.lookup r = some p := by
      cases op with
      | pendingAdd r' p' =>
          simp only [Op.pendingAfter] at hafter
          split at hafter
          · next heq => exact absurd ⟨p', by rw [heq]⟩ hadd
          · exact hafter
      | pendingRemove r' k =>
          simp only [Op.pendingAfter] at hafter
          split at hafter
          · cases hafter
          · exact hafter
      | pendingRemoveForBackend b' =>
          simp only [Op.pendingAfter] at hafter
          exact (Option.filter_eq_some_iff.mp hafter).1
      | pendingRemoveForStream u' =>
          simp only [Op.pendingAfter] at hafter
          exact (Option.filter_eq_some_iff.mp hafter).1
      | _ => exact hafter
    have hfail : .failedPending b ∈ s.shared.log := by
      refine (exec_event hop hex hnew).resolve_right fun hadd => ?_
      cases op with
      | pendingRemoveForBackend b' =>
          cases hadd
          obtain ⟨hid, f, b', -, hb, hd⟩ := hG.pending r p hp
          rw [hid] at hd
          rw [(hbackend hd).2] at hb
          simp only [Op.pendingAfter] at hafter
          have := (Option.filter_eq_some_iff.mp hafter).2
          simp [hb] at this
      | _ => simp [Op.Adds] at hadd
    obtain ⟨o, ho, hs⟩ := h.waiting u b r p hdial hp hfail
    rcases Pool.mem_push ho ht with ⟨rfl, rfl⟩ | ho
    · rcases hs with ⟨pkt, f, rfl⟩ | ⟨f, err, rfl⟩
      · simp only [Konnectivity.exec] at hex
        split at hex <;> cases hex
        cases hcok : c.ok with
        | true =>
            rw [hok b r rfl hcok hfail] at hp
            cases hp
        | false =>
            exact ⟨.pendingRemove r (.sendFailed f c.err), by
              rw [Function.update_self]; exact List.mem_append_left _ (List.mem_singleton.mpr rfl),
              Or.inr ⟨f, c.err, rfl⟩⟩
      · simp [Op.pendingAfter] at hafter
    · exact ⟨o, ho, hs⟩

theorem DialEndInv.exec (h : DialEndInv s) (hc : CustodyInv s) (hG : SharedOrigin cfg s.shared)
    (hP : Pool.All (fun t o => o.Origin cfg s.shared.log t) s.threads)
    (hthen : ∀ t, Pool.Each Op.Then (s.threads t)) (hpanic : s₁.panic ≠ some .closeOfClosedChannel)
    (ht : s.threads t = op :: rest) (hok : SentInTime s.shared t c op)
    (hex : exec cfg s.shared t c op = some (s₁, ops, start)) :
    DialEndInv ⟨s₁, Function.update s.threads t (ops ++ rest)⟩ := by
  have hmem : op ∈ s.threads t := by rw [ht]; exact List.mem_cons_self
  have hop := hP t op hmem
  have hsub := (exec_origin hG hop hex).2.1
  have hold : ∀ f r, HasDial s₁.log f r → HasDial s.shared.log f r :=
    fun f r => exec_hasDial hop hex
  refine ⟨fun f r hf => ?_, fun u r hd => ?_, ?_, fun b hb => ?_, fun b hb => ?_, fun u hu => ?_⟩
  · obtain ⟨pkt, hp, hr⟩ := hf
    refine (h.cancelled f r ⟨pkt, ?_, hr⟩).mono hsub
    refine (exec_event hop hex hp).resolve_right fun hadd => ?_
    cases op <;> simp [Op.Adds] at hadd
  · have hd := hold _ r hd
    rcases h.accounted u r hd with hacc | hcan | hgone
    · rcases hacc.exec hG hop hpanic ht hex with hacc | hdrop
      · exact Or.inl hacc
      · exact Or.inr (h.dropped hc hG hop ht hd hsub hdrop)
    · exact Or.inr (Or.inl (hcan.mono hsub))
    · exact Or.inr (Or.inr (hsub hgone))
  · exact h.waiting_exec hc hG hP (ht ▸ hthen t).1 ht hok hex
  · rcases Pool.mem_of_push ht hb with ⟨-, hb⟩ | hb
    · cases exec_inner hex _ hb
    · rcases h.exiting b hb with hb' | hfail
      · rcases Pool.mem_push hb' ht with ⟨rfl, rfl⟩ | hb'
        · refine Or.inr ?_
          simp only [Konnectivity.exec] at hex
          split at hex <;> cases hex
          exact List.mem_cons_self
        · exact Or.inl hb'
      · exact Or.inr (hsub hfail)
  · rcases exec_backends hex b with heq | ⟨rfl, -⟩
    · exact hsub (h.exited b (heq ▸ hb))
    · -- Nothing comes after the exit, so the pending dials were failed before.
      obtain rfl : t = .dispatcher b := hop
      have hlast : rest = [] := (ht ▸ hthen (.dispatcher b)).1
      rcases h.exiting b hmem with hb' | hfail
      · rw [ht, hlast] at hb'
        simp at hb'
      · exact hsub hfail
  · rcases Pool.mem_of_push ht hu with ⟨-, hu⟩ | hu
    · cases exec_inner hex _ hu
    · exact hsub (h.gone u hu)

/-- Handling a packet of a frontend begins no cleanup. -/
theorem serveRecvFrontend_inner {f : Frontend} {st st' : StreamState} {pkt : Packet}
    (h : serveRecvFrontend f st pkt = some (st', ops)) (u : StreamUID) :
    .pendingRemoveForStream u ∉ ops := by
  simp only [serveRecvFrontend] at h
  split at h
  · obtain ⟨req, -, heq⟩ := Option.map_eq_some_iff.mp h
    cases heq
    simp
  · obtain ⟨req, -, heq⟩ := Option.map_eq_some_iff.mp h
    split at heq <;> cases heq <;> simp [sendFrontendClose]
  · obtain ⟨req, -, heq⟩ := Option.map_eq_some_iff.mp h
    cases heq
    simp
  · obtain ⟨req, -, heq⟩ := Option.map_eq_some_iff.mp h
    repeat' split at heq
    all_goals cases heq
    all_goals simp [sendFrontendClose, sendBackendClose]
  · cases h
    simp

theorem DialEndInv.arrive (h : DialEndInv s) (hG : SharedOrigin cfg s.shared)
    {a : ServerAction} (hok : OwnCancel s.shared a)
    (harr : arrive cfg s.shared a = some (s₁, start)) {threads : Tid → List Op}
    (hthreads : Pool.Arrived s.threads start threads) : DialEndInv ⟨s₁, threads⟩ := by
  have hsub := (arrive_origin hG harr).2.1
  have hstep := arrive_tokens harr
  refine ⟨fun f r hf => ?_, fun u r hd => ?_, fun u b r p hdial hp hfail => ?_, fun b hb => ?_,
    fun b hb => ?_, fun u hu => ?_⟩
  · obtain ⟨pkt, hp, htype, hr⟩ := hf
    rcases arrive_fromFrontend harr hp with hp | ⟨u, rfl, rfl⟩
    · exact (h.cancelled f r ⟨pkt, hp, htype, hr⟩).mono hsub
    · exact (hok htype r hr).mono hsub
  · rcases hstep.hasDial hd with hd | ⟨hdialer, hdials⟩
    · rcases h.accounted u r hd with hacc | hcan | hgone
      · refine Or.inl ?_
        rcases hacc with ⟨x, o, ho, hr⟩ | ⟨p, hp⟩ | hans
        · exact Or.inl ⟨x, o, hthreads.mem ho, hr⟩
        · exact Or.inr (Or.inl ⟨p, by dsimp only; rw [hstep.pending]; exact hp⟩)
        · exact Or.inr (Or.inr (by dsimp only; rw [hstep.answers]; exact hans))
      · exact Or.inr (Or.inl (hcan.mono hsub))
      · exact Or.inr (Or.inr (hsub hgone))
    · -- The handler has the token of the dial it has just received.
      cases a with
      | receive u' pkt =>
          cases hdialer
          obtain ⟨req, rfl, rfl⟩ := arrive_request harr hdials
          refine Or.inl (Or.inl ⟨.proxy u, .selectBackend (proxyFrontend u) req pkt, ?_,
            List.mem_singleton.mpr rfl⟩)
          dsimp only
          rw [hthreads.started]
          exact List.mem_singleton.mpr rfl
      | dial u' r' b network address => cases hdialer
      | _ => cases hdialer
  · rcases hstep.dialing _ b r hdial with hdial | ⟨hdialer, -, u', n, addr, rfl⟩
    · dsimp only at hp
      rw [hstep.pending] at hp
      have hfail := (arrive_event harr hfail).resolve_right (by simp [Event.arrives])
      obtain ⟨o, ho, hs⟩ := h.waiting u b r p hdial hp hfail
      exact ⟨o, hthreads.mem ho, hs⟩
    · cases hdialer
  · rcases hthreads.of_mem hb with hb | ⟨ops, rfl, ho⟩
    · rcases h.exiting b hb with hb | hfail
      · exact Or.inl (hthreads.mem hb)
      · exact Or.inr (hsub hfail)
    · rcases arrive_dispatcher harr with ⟨pkt, -, hops | ⟨-, rfl⟩⟩ | ⟨-, rfl⟩
      · rcases serveRecvBackend_cases hops with rfl | ⟨_, -, -, rfl⟩ | ⟨_, -, -, rfl⟩ |
          ⟨_, -, -, rfl⟩ | ⟨_, -, -, rfl⟩ <;> simp at ho
      · cases ho
      · refine Or.inl ?_
        dsimp only
        rw [hthreads.started]
        exact List.mem_cons_self
  · dsimp only at hb
    rw [arrive_exited harr] at hb
    exact hsub (h.exited b hb)
  · rcases hthreads.of_mem hu with hu | ⟨ops, rfl, ho⟩
    · exact hsub (h.gone u hu)
    · rcases arrive_proxy harr with ⟨pkt, -, rfl | ⟨st, st', hops⟩⟩ | ⟨-, hgone, -⟩
      · cases ho
      · exact absurd ho (serveRecvFrontend_inner hops u)
      · exact hgone

end Steps

/-- Along the runs in which every `DIAL_REQ` is sent in time. -/
theorem server_dialEnd {cfg : ServerConfig} {s : System.State ServerState Tid Op}
    (h : Reach (server cfg).step (System.Allowed SentInTime OwnDials) newServer s) :
    DialEndInv s := by
  refine server_invariant DialEndInv ?_ ?_ ?_ ?_ h
  · refine ⟨fun f r hf => ?_, fun u r hd => ?_, (fun u b r p hd => nomatch hd),
      (fun b hb => nomatch hb), (fun b hb => nomatch hb), (fun u hu => nomatch hu)⟩
    · obtain ⟨pkt, hp, -⟩ := hf
      cases hp
    · rcases hd with ⟨pkt, hp, -⟩ | ⟨b, hd⟩
      · cases hp
      · cases hd
  · intro s t c op rest s₁ ops start hr hinv hrun ht hok hex
    obtain ⟨hG, hP⟩ := server_origin hr
    have hc := server_custody (fun _ _ h => h.1) hr
    have hhttp := server_http (fun _ _ h => h.1) hr
    exact hinv.exec hc hG hP (server_then hr) (hhttp.exec hc hG hP hrun ht hex).panic ht hok hex
  · intro s r b f hinv
    refine { hinv with accounted := fun u r' hd => ?_, waiting := fun u b' r' p hd hp hf => ?_,
                       exiting := fun b' hb => ?_, gone := fun u hu => ?_ }
    · refine (hinv.accounted u r' hd).imp_left fun hacc => hacc.imp_left fun hheld => ?_
      obtain ⟨x, o, ho, hr⟩ := hheld
      exact ⟨x, o, mem_timer_of_mem ho, hr⟩
    · exact hinv.waiting u b' r' p hd hp hf
    · exact hinv.exiting b' hb
    · exact hinv.gone u hu
  · intro s a s₁ start threads hr hinv _ hok harr hthreads
    exact hinv.arrive (server_origin hr).1 hok.2 harr hthreads

/-! ## What becomes of a dial -/

/-- The operations of `serveRecvFrontend` for the `DIAL_REQ` of the dial. -/
def Op.ofDialReq (r : DialID) : Op → Bool
  | .selectBackend _ req _ => req.random == r
  | .pendingAdd r' _ => r' == r
  | .sendBackend _ _ (.dialReq _ r') => r' == r
  | .pendingRemove r' (.sendFailed _ _) => r' == r
  | .startPendingDialTimeout r' _ _ => r' == r
  | .sendFrontend _ pkt _ => pkt.answersDial == some r
  | _ => false

/-- The fate of a dial once its agent stream has ended and its handler has moved
past the `DIAL_REQ`: it is no longer pending, and the frontend has been handed
an answer, or a goroutine that claimed the dial is about to hand it over,
unless the frontend withdrew the dial or went away. -/
def Settled (s : System.State ServerState Tid Op) (u : StreamUID) (r : DialID) : Prop :=
  s.shared.pendingDial.pendingDial.lookup r = none ∧
    (Cancelled s.shared.log (proxyFrontend u) r ∨ .frontendGone u ∈ s.shared.log ∨
      0 < answers s.shared.log r ∨
      ∃ t, ∃ o ∈ s.threads t, ∃ f pkt k, o = .sendFrontend f pkt k ∧ pkt.answersDial = some r)

/-- Over any run in which dial IDs are distinct, frontends withdraw only their
own dials and every `DIAL_REQ` is sent in time: once the dispatcher of the
chosen backend has exited and the handler has moved past the `DIAL_REQ`, the
dial is settled. -/
theorem dial_settled {cfg : ServerConfig} {s : System.State ServerState Tid Op}
    (h : Reach (server cfg).step (System.Allowed SentInTime OwnDials) newServer s)
    {u : StreamUID} {b : BackendId} {r : DialID}
    (hdial : .dialing (proxyFrontend u) b r ∈ s.shared.log)
    (hexit : (s.shared.backends b).exited = true)
    (hpast : ∀ o ∈ s.threads (.proxy u), o.ofDialReq r = false) : Settled s u r := by
  have hinv := server_dialEnd h
  obtain ⟨-, hP⟩ := server_origin h
  have hc := server_custody (fun _ _ h => h.1) h
  have hpending : s.shared.pendingDial.pendingDial.lookup r = none := by
    cases hp : s.shared.pendingDial.pendingDial.lookup r with
    | none => rfl
    | some p =>
        obtain ⟨o, ho, hs⟩ := hinv.waiting u b r p hdial hp (hinv.exited b hexit)
        have hfalse := hpast o ho
        rcases hs with ⟨pkt, f, rfl⟩ | ⟨f, err, rfl⟩ <;> simp [Op.ofDialReq] at hfalse
  refine ⟨hpending, ?_⟩
  rcases hinv.accounted u r (Or.inr ⟨b, hdial⟩) with hacc | hcan | hgone
  · rcases hacc with ⟨t, o, ho, hr⟩ | ⟨p, hp⟩ | hans
    · refine Or.inr (Or.inr (Or.inr ⟨t, o, ho, ?_⟩))
      have horigin := hP t o ho
      -- The token is not with the handler any more, so it was claimed from the pending map.
      have hown : ∀ f, HasDial s.shared.log f r → f.tid = .proxy u := fun f hf => by
        rw [hc.frontend f (proxyFrontend u) r hf (Or.inr ⟨b, hdial⟩)]
        rfl
      cases o with
      | sendFrontend f pkt k => exact ⟨f, pkt, k, rfl, by simpa [Op.tokens] using hr⟩
      | pendingAdd r' p =>
          obtain rfl : r = r' := by simpa [Op.tokens] using hr
          obtain ⟨hid, ⟨f, b', hf, -, hd⟩, htid⟩ := horigin
          rw [htid f hf, hown f (Or.inr ⟨b', hid ▸ hd⟩)] at ho
          have hfalse := hpast _ ho
          simp [Op.ofDialReq] at hfalse
      | selectBackend f req pkt =>
          obtain rfl : r = req.random := by simpa [Op.tokens] using hr
          obtain ⟨htid, -, hpkt, hreq⟩ := horigin
          rw [htid, hown f (Or.inl ⟨pkt, hpkt, hreq⟩)] at ho
          have hfalse := hpast _ ho
          simp [Op.ofDialReq] at hfalse
      | _ => cases hr
    · rw [hpending] at hp
      cases hp
    · exact Or.inr (Or.inr (Or.inl hans))
  · exact Or.inl hcan
  · exact Or.inr (Or.inl hgone)

/-- A dial that is pending when its agent stream ends, without a dial timeout. -/
theorem dial_settled_failed :
    let cfg : ServerConfig := ⟨fun _ => { id := "a" }, false⟩
    ∃ s : System.State ServerState Tid Op,
      Reach (server cfg).step (System.Allowed SentInTime OwnDials) newServer s ∧
        (s.shared.backends 0).exited = true ∧ (s.shared.backends 0).ctxDone = true ∧
        answers s.shared.log 10 = 1 ∧ Settled s "x" 10 := by
  intro cfg
  let entry : ProxyClientConnection :=
    { frontend := some (proxyFrontend "x"), dialID := 10, backend := some 0, dialAddress := "h" }
  let acts : List (System.Action Tid ServerAction Choice) :=
    [.arrive (.connect 0), .arrive (.openStream "x" none),
      .arrive (.receive "x" (.ofDialRequest ⟨"tcp", "h", 10⟩)),
      .run (.proxy "x") { backend := some 0 }, .run (.proxy "x") {}, .run (.proxy "x") {},
      .arrive (.recvEnd 0 true), .arrive (.drained 0), .run (.dispatcher 0) { order := [entry] },
      .run (.dispatcher 0) {}, .run (.dispatcher 0) {}, .run (.dispatcher 0) {},
      .arrive (.disconnect 0), .arrive (.ctxDone 0), .run (.proxy "x") {}]
  have hrun : ∃ s, run (server cfg).step newServer acts = some s ∧
      .dialing (proxyFrontend "x") 0 10 ∈ s.shared.log ∧ (s.shared.backends 0).exited = true ∧
      (s.shared.backends 0).ctxDone = true ∧ answers s.shared.log 10 = 1 ∧
      s.threads (.proxy "x") = [] :=
    ⟨_, rfl, by decide, rfl, rfl, rfl, rfl⟩
  obtain ⟨s, hs, hdial, hexit, hctx, hans, hidle⟩ := hrun
  have hreach : Reach (server cfg).step (System.Allowed SentInTime OwnDials) newServer s :=
    reach_of_run hs (by decide)
  refine ⟨s, hreach, hexit, hctx, hans, dial_settled hreach hdial hexit fun o ho => ?_⟩
  rw [hidle] at ho
  cases ho

/-- The handler has chosen the backend when its stream ends; it enters the dial
after the pending dials were failed, and the `DIAL_REQ` is still accepted.
Everybody is done, and the dial is pending and unanswered. -/
theorem dial_not_settled :
    let cfg : ServerConfig := ⟨fun _ => { id := "a" }, false⟩
    ∃ s : System.State ServerState Tid Op,
      Reach (server cfg).step (System.Allowed (fun _ _ _ _ => True) OwnDials) newServer s ∧
        .dialing (proxyFrontend "x") 0 10 ∈ s.shared.log ∧
        (s.shared.backends 0).exited = true ∧ (s.shared.backends 0).ctxDone = true ∧
        s.threads (.proxy "x") = [] ∧ ¬ Settled s "x" 10 := by
  intro cfg
  let acts : List (System.Action Tid ServerAction Choice) :=
    [.arrive (.connect 0), .arrive (.openStream "x" none),
      .arrive (.receive "x" (.ofDialRequest ⟨"tcp", "h", 10⟩)),
      .run (.proxy "x") { backend := some 0 }, .arrive (.recvEnd 0 true), .arrive (.drained 0),
      .run (.dispatcher 0) {}, .run (.proxy "x") {}, .run (.proxy "x") {}, .run (.proxy "x") {},
      .run (.dispatcher 0) {}, .run (.dispatcher 0) {}, .arrive (.disconnect 0),
      .arrive (.ctxDone 0)]
  have hrun : ∃ s, run (server cfg).step newServer acts = some s ∧
      .dialing (proxyFrontend "x") 0 10 ∈ s.shared.log ∧ (s.shared.backends 0).exited = true ∧
      (s.shared.backends 0).ctxDone = true ∧ s.threads (.proxy "x") = [] ∧
      (s.shared.pendingDial.pendingDial.lookup 10).isSome = true :=
    ⟨_, rfl, by decide, rfl, rfl, rfl, rfl⟩
  obtain ⟨s, hs, hdial, hexit, hctx, hidle, hpending⟩ := hrun
  refine ⟨s, reach_of_run hs (by decide), hdial, hexit, hctx, hidle, fun h => ?_⟩
  rw [h.1] at hpending
  cases hpending

end Konnectivity
