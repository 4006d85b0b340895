import Konnectivity.Server.QueueMetric

/-!
# The gauge of full write queues is exact

The stored flag may be wrong about the channel only while an update is under
way that will look at it again, or has looked and found what is true now
(`Inv.exact`). An update that has read a stale occupancy is thus never the
last one. The mutex keeps the stop and the updates apart, so what an update
publishes it publishes before the stop.
-/

namespace Konnectivity.QueueMetric

open Lib

/-- The operation is made with the mutex held. -/
def Op.holds : Op → Bool
  | .check | .publish _ | .stop => true
  | _ => false

/-- An update that has not looked at the channel yet. -/
def Op.looks : Op → Bool
  | .lockUpdate | .check => true
  | _ => false

/-- Part of an update. -/
def Op.updates : Op → Bool
  | .lockUpdate | .check | .publish _ => true
  | _ => false

/-- The gauge and the fields beside it agree. -/
structure Stream.Ok (h : Stream) : Prop where
  gauge : h.gauge = if h.full then 1 else 0
  fullGauge : h.fullGauge = h.full
  stopped : h.stopped = true → h.full = false
  panic : h.panic = false

structure Inv (s : System.State Stream Tid Op) : Prop where
  ok : s.shared.Ok
  single : ∀ t o rest, s.threads t = o :: rest → rest = []
  holder : ∀ t o, s.threads t = [o] → o.holds = true → s.shared.mu = some t
  publish : ∀ t full, s.threads t = [.publish full] → s.shared.stopped = false
  exact : s.shared.stopped = false →
    (∃ t o, s.threads t = [o] ∧ o.looks = true) ∨
    (∃ t, s.threads t = [.publish s.shared.isFull]) ∨
    ((∀ t full, s.threads t ≠ [.publish full]) ∧ s.shared.full = s.shared.isFull)

theorem inv_init {n : Nat} (hn : 1 ≤ n) : Inv (init n) where
  ok := ⟨rfl, rfl, fun _ => rfl, rfl⟩
  single := fun t o rest h => by cases h
  holder := fun t o h => by cases h
  publish := fun t full h => by cases h
  exact := fun _ => by
    have hroom : false = decide (0 = n) := (decide_eq_false (by omega)).symm
    exact Or.inr (Or.inr ⟨fun t full h => (by cases h), hroom⟩)

/-! ## The critical sections -/

theorem ok_publish {h : Stream} (hok : h.Ok) (hrun : h.stopped = false) (full : Bool) :
    (h.publish full).Ok ∧ (h.publish full).full = full ∧
      (h.publish full).stopped = h.stopped ∧ (h.publish full).isFull = h.isFull := by
  obtain ⟨hgauge, hfull, hstopped, hpanic⟩ := hok
  unfold Stream.publish
  by_cases hsame : h.full = full
  · rw [if_pos hsame]
    exact ⟨⟨hgauge, hfull, hstopped, hpanic⟩, hsame, rfl, rfl⟩
  · rw [if_neg hsame]
    cases full with
    | true =>
        have hold : h.full = false := by simpa using hsame
        rw [hold] at hgauge
        refine ⟨⟨?_, rfl, fun hs => ?_, hpanic⟩, rfl, rfl, rfl⟩
        · show h.gauge + 1 = 1
          rw [hgauge]
          rfl
        · rw [show h.stopped = true from hs] at hrun
          cases hrun
    | false =>
        have hold : h.full = true := by simpa using hsame
        rw [hold] at hgauge hfull
        simp only [Stream.dec, hfull, if_true]
        refine ⟨⟨?_, rfl, fun _ => rfl, hpanic⟩, rfl, rfl, rfl⟩
        show h.gauge - 1 = 0
        rw [hgauge]
        rfl

theorem ok_stop {h : Stream} (hok : h.Ok) : h.stop.Ok ∧ h.stop.stopped = true := by
  obtain ⟨hgauge, hfull, hstopped, hpanic⟩ := hok
  unfold Stream.stop
  by_cases hs : h.stopped = true
  · rw [if_pos hs]
    exact ⟨⟨hgauge, hfull, hstopped, hpanic⟩, hs⟩
  · rw [if_neg hs]
    by_cases hold : h.full = true
    · rw [if_pos hold]
      rw [hold] at hgauge hfull
      simp only [Stream.dec, hfull, if_true]
      refine ⟨⟨?_, rfl, fun _ => rfl, hpanic⟩, trivial⟩
      show h.gauge - 1 = 0
      rw [hgauge]
      rfl
    · rw [if_neg hold]
      exact ⟨⟨hgauge, hfull, fun _ => Bool.eq_false_iff.mpr hold, hpanic⟩, rfl⟩

/-! ## One step -/

variable {s : System.State Stream Tid Op} {h : Stream} {t : Tid} {o : Op} {ops : List Op}

theorem threads_update {x : Tid} {o' : Op} {rest : List Op}
    (hx : Function.update s.threads t ops x = o' :: rest) :
    (x = t ∧ ops = o' :: rest) ∨ (x ≠ t ∧ s.threads x = o' :: rest) := by
  by_cases hxt : x = t
  · subst hxt
    rw [Function.update_self] at hx
    exact Or.inl ⟨rfl, hx⟩
  · rw [Function.update_of_ne hxt] at hx
    exact Or.inr ⟨hxt, hx⟩

/-- Another goroutine is where it was. -/
theorem threads_other {x : Tid} (hxt : x ≠ t) :
    Function.update s.threads t ops x = s.threads x :=
  Function.update_of_ne hxt _ _

theorem single_update (hinv : Inv s) (hops : ops.length ≤ 1) :
    ∀ x o' rest, Function.update s.threads t ops x = o' :: rest → rest = [] := by
  intro x o' rest hx
  rcases threads_update hx with ⟨-, rfl⟩ | ⟨-, hx⟩
  · exact List.length_eq_zero_iff.mp (by simpa using hops)
  · exact hinv.single x o' rest hx

/-- The holder of the mutex is the only one inside. -/
theorem Inv.eq_of_holds (hinv : Inv s) {x : Tid} {o' : Op} (ht : s.threads t = [o])
    (hx : s.threads x = [o']) (ho : o.holds = true) (ho' : o'.holds = true) : x = t := by
  have hmu := hinv.holder t o ht ho
  rw [hinv.holder x o' hx ho'] at hmu
  exact Option.some.inj hmu

/-- Whether the flag is right may be asked of the goroutines that have not
moved. -/
theorem Inv.exact_other (hinv : Inv s) (hlive : s.shared.stopped = false)
    (hlooks : ∀ o rest, s.threads t = o :: rest → o.looks = false)
    (hpublish : ∀ full, s.threads t ≠ [.publish full])
    (hops : ∀ full, ops ≠ [.publish full]) :
    (∃ x o, Function.update s.threads t ops x = [o] ∧ o.looks = true) ∨
    (∃ x, Function.update s.threads t ops x = [.publish s.shared.isFull]) ∨
    ((∀ x full, Function.update s.threads t ops x ≠ [.publish full]) ∧
      s.shared.full = s.shared.isFull) := by
  rcases hinv.exact hlive with ⟨x, o, hx, ho⟩ | ⟨x, hx⟩ | ⟨hnone, hfull⟩
  · have hxt : x ≠ t := by
      rintro rfl
      rw [hlooks o [] hx] at ho
      cases ho
    exact Or.inl ⟨x, o, (threads_other hxt).trans hx, ho⟩
  · have hxt : x ≠ t := by
      rintro rfl
      exact hpublish _ hx
    exact Or.inr (Or.inl ⟨x, (threads_other hxt).trans hx⟩)
  · refine Or.inr (Or.inr ⟨fun x full hx => ?_, hfull⟩)
    rcases threads_update hx with ⟨-, hops'⟩ | ⟨-, hx⟩
    · exact hops full hops'
    · exact hnone x full hx

/-- A channel operation, which owes an update. -/
theorem inv_channel (hinv : Inv s) {ch : GoChan Packet} :
    Inv ⟨{ s.shared with writeCh := ch }, Function.update s.threads t [.lockUpdate]⟩ where
  ok := ⟨hinv.ok.gauge, hinv.ok.fullGauge, hinv.ok.stopped, hinv.ok.panic⟩
  single := single_update hinv (Nat.le_refl 1)
  holder := fun x o' hx ho' => by
    rcases threads_update hx with ⟨-, hops⟩ | ⟨-, hx⟩
    · cases hops
      cases ho'
    · exact hinv.holder x o' hx ho'
  publish := fun x full hx => by
    rcases threads_update hx with ⟨-, hops⟩ | ⟨-, hx⟩
    · cases hops
    · exact hinv.publish x full hx
  exact := fun _ => Or.inl ⟨t, .lockUpdate, Function.update_self .., rfl⟩

/-- The mutex is taken. -/
theorem holder_lock (hinv : Inv s) (hmu : s.shared.mu.isSome = false) :
    ∀ x o', Function.update s.threads t [o] x = [o'] → o'.holds = true → some t = some x := by
  intro x o' hx ho'
  rcases threads_update hx with ⟨rfl, -⟩ | ⟨-, hx⟩
  · rfl
  · rw [hinv.holder x o' hx ho'] at hmu
    cases hmu

theorem inv_lockUpdate (hinv : Inv s) (hmu : s.shared.mu.isSome = false) :
    Inv ⟨{ s.shared with mu := some t }, Function.update s.threads t [.check]⟩ where
  ok := ⟨hinv.ok.gauge, hinv.ok.fullGauge, hinv.ok.stopped, hinv.ok.panic⟩
  single := single_update hinv (Nat.le_refl 1)
  holder := holder_lock hinv hmu
  publish := fun x full hx => by
    rcases threads_update hx with ⟨-, hops⟩ | ⟨-, hx⟩
    · cases hops
    · exact hinv.publish x full hx
  exact := fun _ => Or.inl ⟨t, .check, Function.update_self .., rfl⟩

theorem inv_lockStop (hinv : Inv s) (ht : s.threads t = [.lockStop])
    (hmu : s.shared.mu.isSome = false) :
    Inv ⟨{ s.shared with mu := some t }, Function.update s.threads t [.stop]⟩ where
  ok := ⟨hinv.ok.gauge, hinv.ok.fullGauge, hinv.ok.stopped, hinv.ok.panic⟩
  single := single_update hinv (Nat.le_refl 1)
  holder := holder_lock hinv hmu
  publish := fun x full hx => by
    rcases threads_update hx with ⟨-, hops⟩ | ⟨-, hx⟩
    · cases hops
    · exact hinv.publish x full hx
  exact := fun hlive => by
    refine hinv.exact_other hlive (fun o rest ho => ?_) (fun full h => ?_) fun full h => ?_
    · rw [ht] at ho
      cases ho
      rfl
    · rw [ht] at h
      cases h
    · cases h

/-- The goroutine inside leaves, whatever it did to the rest. -/
theorem inv_unlock (hinv : Inv s) (ht : s.threads t = [o]) (ho : o.holds = true) (hok : h.Ok)
    (hexact : h.stopped = false →
      (∃ x o', x ≠ t ∧ s.threads x = [o'] ∧ o'.looks = true) ∨ h.full = h.isFull) :
    Inv ⟨{ h with mu := none }, Function.update s.threads t []⟩ where
  ok := ⟨hok.gauge, hok.fullGauge, hok.stopped, hok.panic⟩
  single := single_update hinv (Nat.zero_le 1)
  holder := fun x o' hx ho' => by
    rcases threads_update hx with ⟨-, hops⟩ | ⟨hxt, hx⟩
    · cases hops
    · exact absurd (hinv.eq_of_holds ht hx ho ho') hxt
  publish := fun x full hx => by
    rcases threads_update hx with ⟨-, hops⟩ | ⟨hxt, hx⟩
    · cases hops
    · exact absurd (hinv.eq_of_holds ht hx ho rfl) hxt
  exact := fun hlive => by
    rcases hexact hlive with ⟨x, o', hxt, hx, ho'⟩ | hfull
    · exact Or.inl ⟨x, o', (threads_other hxt).trans hx, ho'⟩
    · refine Or.inr (Or.inr ⟨fun x full hx => ?_, hfull⟩)
      rcases threads_update hx with ⟨-, hops⟩ | ⟨hxt, hx⟩
      · cases hops
      · exact hxt (hinv.eq_of_holds ht hx ho rfl)

theorem inv_check (hinv : Inv s) (ht : s.threads t = [.check])
    (hlive : s.shared.stopped = false) :
    Inv ⟨s.shared, Function.update s.threads t [.publish s.shared.isFull]⟩ where
  ok := hinv.ok
  single := single_update hinv (Nat.le_refl 1)
  holder := fun x o' hx ho' => by
    rcases threads_update hx with ⟨rfl, -⟩ | ⟨-, hx⟩
    · exact hinv.holder x .check ht rfl
    · exact hinv.holder x o' hx ho'
  publish := fun _ _ _ => hlive
  exact := fun _ => Or.inr (Or.inl ⟨t, Function.update_self ..⟩)

/-- An update that publishes: unless what it read is stale, and then another
one follows, the flag is right again. -/
theorem inv_publish (hinv : Inv s) {full : Bool} (ht : s.threads t = [.publish full]) :
    Inv ⟨{ s.shared.publish full with mu := none }, Function.update s.threads t []⟩ := by
  have hlive := hinv.publish t full ht
  obtain ⟨hok, hfull, -, hsame⟩ := ok_publish hinv.ok hlive full
  refine inv_unlock hinv ht rfl hok fun _ => ?_
  rcases hinv.exact hlive with ⟨x, o', hx, ho'⟩ | ⟨x, hx⟩ | ⟨hnone, -⟩
  · refine Or.inl ⟨x, o', ?_, hx, ho'⟩
    rintro rfl
    rw [ht] at hx
    cases hx
    cases ho'
  · have hxt := hinv.eq_of_holds ht hx rfl rfl
    subst hxt
    rw [ht] at hx
    cases hx
    exact Or.inr (hfull.trans hsame.symm)
  · exact absurd ht (hnone t full)

theorem inv_exec (hinv : Inv s) {c : Unit} {rest : List Op} {start : Option (Tid × List Op)}
    (ht : s.threads t = o :: rest) (hex : exec s.shared t c o = some (h, ops, start)) :
    Inv ⟨h, Pool.spawn (Function.update s.threads t (ops ++ rest)) start⟩ := by
  have hrest := hinv.single t o rest ht
  subst hrest
  rw [List.append_nil]
  cases o with
  | enqueue pkt =>
      simp only [exec] at hex
      split at hex
      · cases hex
        exact inv_channel hinv
      · cases hex
  | dequeue =>
      simp only [exec] at hex
      split at hex
      · cases hex
      · cases hex
        exact inv_channel hinv
  | lockUpdate =>
      simp only [exec] at hex
      split at hex
      · cases hex
      · next hmu =>
          cases hex
          exact inv_lockUpdate hinv (Bool.eq_false_iff.mpr hmu)
  | check =>
      simp only [exec] at hex
      split at hex
      · next hstopped =>
          cases hex
          exact inv_unlock hinv ht rfl hinv.ok fun hlive => by rw [hstopped] at hlive; cases hlive
      · next hlive =>
          cases hex
          exact inv_check hinv ht (Bool.eq_false_iff.mpr hlive)
  | publish full =>
      cases hex
      exact inv_publish hinv ht
  | lockStop =>
      simp only [exec] at hex
      split at hex
      · cases hex
      · next hmu =>
          cases hex
          exact inv_lockStop hinv ht (Bool.eq_false_iff.mpr hmu)
  | stop =>
      cases hex
      obtain ⟨hok, hstopped⟩ := ok_stop hinv.ok
      exact inv_unlock hinv ht rfl hok fun hlive => by rw [hstopped] at hlive; cases hlive

theorem inv_arrive (hinv : Inv s) (ht : s.threads t = []) (ho : o.holds = false)
    (hpublish : ∀ full, o ≠ .publish full) : Inv ⟨s.shared, Function.update s.threads t [o]⟩ where
  ok := hinv.ok
  single := single_update hinv (Nat.le_refl 1)
  holder := fun x o' hx ho' => by
    rcases threads_update hx with ⟨-, hops⟩ | ⟨-, hx⟩
    · cases hops
      rw [ho] at ho'
      cases ho'
    · exact hinv.holder x o' hx ho'
  publish := fun x full hx => by
    rcases threads_update hx with ⟨-, hops⟩ | ⟨-, hx⟩
    · cases hops
      exact absurd rfl (hpublish full)
    · exact hinv.publish x full hx
  exact := fun hlive => by
    refine hinv.exact_other hlive (fun o rest ho => ?_) (fun full h => ?_) fun full h => ?_
    · rw [ht] at ho
      cases ho
    · rw [ht] at h
      cases h
    · exact hpublish full (List.cons.inj h).1

/-! ## Runs -/

theorem inv_reach {n : Nat} (hn : 1 ≤ n) (h : Reach stream.step System.unrestricted (init n) s) :
    Inv s := by
  refine System.invariant_state Inv (inv_init hn) ?_ ?_ h
  · intro s t c o rest h ops start _ hinv _ ht _ hex
    exact inv_exec (c := c) hinv ht hex
  · intro s a h start threads _ hinv _ _ harr harrived
    cases a with
    | enqueue t pkt =>
        cases harr
        obtain ⟨ht, rfl⟩ := harrived
        exact inv_arrive hinv ht rfl (by simp)
    | dequeue t =>
        cases harr
        obtain ⟨ht, rfl⟩ := harrived
        exact inv_arrive hinv ht rfl (by simp)
    | stop t =>
        cases harr
        obtain ⟨ht, rfl⟩ := harrived
        exact inv_arrive hinv ht rfl (by simp)

@[simp] theorem dec_kept (h : Stream) : h.dec.writeCh = h.writeCh ∧ h.dec.stopped = h.stopped := by
  unfold Stream.dec
  split <;> exact ⟨rfl, rfl⟩

/-- No operation changes the capacity or takes back the stop. -/
theorem exec_kept {h h' : Stream} {c : Unit} {start : Option (Tid × List Op)}
    (hex : exec h t c o = some (h', ops, start)) :
    h'.writeCh.cap = h.writeCh.cap ∧ (h.stopped = true → h'.stopped = true) := by
  cases o with
  | enqueue pkt =>
      simp only [exec] at hex
      split at hex
      · cases hex
        exact ⟨rfl, id⟩
      · cases hex
  | dequeue =>
      simp only [exec] at hex
      split at hex
      · cases hex
      · cases hex
        exact ⟨rfl, id⟩
  | lockUpdate =>
      simp only [exec] at hex
      split at hex
      · cases hex
      · cases hex
        exact ⟨rfl, id⟩
  | check =>
      simp only [exec] at hex
      split at hex
      · cases hex
        exact ⟨rfl, id⟩
      · cases hex
        exact ⟨rfl, id⟩
  | publish full =>
      cases hex
      simp only [Stream.publish]
      split
      · exact ⟨rfl, id⟩
      · split
        · exact ⟨rfl, id⟩
        · simp
  | lockStop =>
      simp only [exec] at hex
      split at hex
      · cases hex
      · cases hex
        exact ⟨rfl, id⟩
  | stop =>
      cases hex
      simp only [Stream.stop]
      split
      · exact ⟨rfl, id⟩
      · split
        · simp
        · simp

theorem arrive_kept {h h' : Stream} {a : Call} {start : Option (Tid × List Op)}
    (harr : arrive h a = some (h', start)) : h' = h := by
  cases a <;> cases harr <;> rfl

theorem reach_kept {s s' : System.State Stream Tid Op}
    (h : Reach stream.step System.unrestricted s s') :
    s'.shared.writeCh.cap = s.shared.writeCh.cap ∧
      (s.shared.stopped = true → s'.shared.stopped = true) := by
  refine System.invariant_state (fun x => x.shared.writeCh.cap = s.shared.writeCh.cap ∧
    (s.shared.stopped = true → x.shared.stopped = true)) ⟨rfl, id⟩ ?_ ?_ h
  · intro x t c o rest h ops start _ hinv _ _ _ hex
    obtain ⟨hcap, hstopped⟩ := exec_kept (c := c) hex
    exact ⟨hcap.trans hinv.1, fun hs => hstopped (hinv.2 hs)⟩
  · intro x a h start threads _ hinv _ _ harr _
    obtain rfl := arrive_kept harr
    exact hinv

/-- The consumer has read the occupancy when the producer fills the queue again,
and publishes what it read after that. -/
def overtaken (pkt : Packet) : List (System.Action Tid Call Unit) :=
  [.arrive (.enqueue 0 pkt), .run 0 (), .run 0 (), .run 0 (), .run 0 (),
    .arrive (.dequeue 1), .run 1 (), .run 1 (), .run 1 (),
    .arrive (.enqueue 0 pkt), .run 0 (), .run 1 (), .run 0 (), .run 0 (), .run 0 ()]

end Konnectivity.QueueMetric
