import Konnectivity.Agent.LeaseCounter

/-!
# What the lease counter should say, and when it does

The documentation of `Count` gives the number of valid leases, and when there is
none to be found the number that was found last. The code agrees as long as no
lease has a time and no duration, and as long as it does not find all leases
expired after it has found more than one valid.
-/

namespace Konnectivity.Agent

open Server.Leases

/-- Whether a lease is valid; one that does not say when it expires is not. -/
def live (now : Time) (lease : Lease) : Bool :=
  match lease.renewTime.or lease.acquireTime, lease.leaseDurationSeconds with
  | some t, some d => now < t + d * second
  | _, _ => false

def liveCount (now : Nat → Time) : Nat → List Lease → Nat
  | _, [] => 0
  | i, lease :: leases => (if live (now i) lease then 1 else 0) + liveCount now (i + 1) leases

namespace CountCall

/-- The number of valid leases a call finds. -/
def found (call : CountCall) : Nat :=
  match call.leases with
  | none => 0
  | some leases => liveCount call.now 0 leases

/-- The count of the most recent call that found valid leases; newest first. -/
def fallback : List CountCall → Nat
  | [] => 1
  | call :: earlier => if call.found = 0 then fallback earlier else call.found

/-- What a call should return after these. -/
def expected (earlier : List CountCall) (call : CountCall) : Nat :=
  if call.found = 0 then fallback earlier else call.found

def expectedAll (earlier : List CountCall) : List CountCall → List Nat
  | [] => []
  | call :: calls => call.expected earlier :: expectedAll (call :: earlier) calls

/-- Every lease with a time has a duration, and a listing without a valid lease
comes only while the fallback is 1. -/
def Regular (earlier : List CountCall) (call : CountCall) : Prop :=
  ∀ leases, call.leases = some leases →
    (∀ lease ∈ leases, (lease.renewTime.or lease.acquireTime).isSome = true →
      lease.leaseDurationSeconds.isSome = true) ∧
    (call.found = 0 → fallback earlier = 1)

def RegularAll (earlier : List CountCall) : List CountCall → Prop
  | [] => True
  | call :: calls => call.Regular earlier ∧ RegularAll (call :: earlier) calls

end CountCall

open CountCall

theorem isLeaseValid_of_duration {now : Time} {lease : Lease}
    (h : (lease.renewTime.or lease.acquireTime).isSome = true →
      lease.leaseDurationSeconds.isSome = true) :
    isLeaseValid now lease = some (live now lease) := by
  unfold isLeaseValid live
  cases hr : lease.renewTime with
  | some t =>
      rw [hr] at h
      obtain ⟨d, hd⟩ := Option.isSome_iff_exists.mp (h rfl)
      simp [hd]
  | none =>
      cases ha : lease.acquireTime with
      | some t =>
          rw [hr, ha] at h
          obtain ⟨d, hd⟩ := Option.isSome_iff_exists.mp (h rfl)
          simp [hd]
      | none => simp

theorem isLeaseValid_panics {now : Time} {lease : Lease}
    (h : ¬ ((lease.renewTime.or lease.acquireTime).isSome = true →
      lease.leaseDurationSeconds.isSome = true)) :
    isLeaseValid now lease = none := by
  rw [Classical.not_imp, Bool.not_eq_true, Option.isSome_eq_false_iff,
    Option.isNone_iff_eq_none] at h
  unfold isLeaseValid
  rw [h.2]
  cases hr : lease.renewTime with
  | some t => rfl
  | none =>
      cases ha : lease.acquireTime with
      | some t => rfl
      | none => simp [hr, ha] at h

theorem countValid_eq {now : Nat → Time} {leases : List Lease} (i : Nat)
    (h : ∀ lease ∈ leases, (lease.renewTime.or lease.acquireTime).isSome = true →
      lease.leaseDurationSeconds.isSome = true) :
    countValid now i leases = some (liveCount now i leases) := by
  induction leases generalizing i with
  | nil => rfl
  | cons lease leases ih =>
      rw [countValid, isLeaseValid_of_duration (h lease List.mem_cons_self),
        ih (i + 1) fun l hl => h l (List.mem_cons_of_mem _ hl)]
      simp only [Option.bind_eq_bind, Option.bind_some, liveCount]
      split <;> simp [Nat.add_comm]

theorem countValid_panics {now : Nat → Time} {leases : List Lease} (i : Nat)
    (h : ¬ ∀ lease ∈ leases, (lease.renewTime.or lease.acquireTime).isSome = true →
      lease.leaseDurationSeconds.isSome = true) :
    countValid now i leases = none := by
  induction leases generalizing i with
  | nil => exact absurd (by simp) h
  | cons lease leases ih =>
      rw [countValid]
      by_cases hl : (lease.renewTime.or lease.acquireTime).isSome = true →
          lease.leaseDurationSeconds.isSome = true
      · rw [ih (i + 1) fun hall => h fun l hmem => ?_]
        · cases isLeaseValid (now i) lease <;> rfl
        · rcases List.mem_cons.mp hmem with rfl | hmem
          · exact hl
          · exact hall l hmem
      · rw [isLeaseValid_panics hl]
        rfl

theorem fallback_pos (earlier : List CountCall) : 1 ≤ fallback earlier := by
  induction earlier with
  | nil => exact Nat.le_refl 1
  | cons call earlier ih =>
      rw [fallback]
      split
      · exact ih
      · omega

theorem expected_pos (earlier : List CountCall) (call : CountCall) : 1 ≤ call.expected earlier :=
  fallback_pos (call :: earlier)

section Calls

variable {lc : ServerLeaseCounter} {earlier : List CountCall} {call : CountCall}

/-- A regular call returns what it should, and so does the fallback. -/
theorem count_regular (hlc : lc.fallbackCount = fallback earlier) (h : call.Regular earlier) :
    ∃ lc', lc.count call = some (call.expected earlier, lc') ∧
      lc'.fallbackCount = fallback (call :: earlier) := by
  unfold ServerLeaseCounter.count
  cases hl : call.leases with
  | none =>
      have hfound : call.found = 0 := by rw [found, hl]
      refine ⟨lc, ?_, ?_⟩
      · rw [expected, if_pos hfound, hlc]
      · rw [hlc, fallback, if_pos hfound]
  | some leases =>
      obtain ⟨hdur, hnone⟩ := h leases hl
      have hfound : call.found = liveCount call.now 0 leases := by rw [found, hl]
      -- the code takes 1 where the fallback belongs, which is 1 here
      have hcount : (if call.found = 0 then 1 else call.found) = call.expected earlier := by
        rw [expected]
        split
        · next h0 => exact (hnone h0).symm
        · rfl
      simp only [countValid_eq 0 hdur, ← hfound, hcount, Option.bind_eq_bind, Option.bind_some,
        Option.pure_def]
      refine ⟨_, rfl, ?_⟩
      change _ = call.expected earlier
      split
      · rfl
      · next hsame => exact (not_not.mp hsame).symm

/-- Any other call panics, or returns something else. -/
theorem count_irregular (h : ¬ call.Regular earlier) :
    ∀ n lc', lc.count call = some (n, lc') → n ≠ call.expected earlier := by
  intro n lc' hcount heq
  unfold ServerLeaseCounter.count at hcount
  cases hl : call.leases with
  | none => exact h fun leases hleases => by rw [hl] at hleases; cases hleases
  | some leases =>
      have hfound : call.found = liveCount call.now 0 leases := by rw [found, hl]
      rw [hl] at hcount
      by_cases hdur : ∀ lease ∈ leases, (lease.renewTime.or lease.acquireTime).isSome = true →
          lease.leaseDurationSeconds.isSome = true
      · simp only [countValid_eq 0 hdur, ← hfound, Option.bind_eq_bind, Option.bind_some,
          Option.pure_def, Option.some.injEq, Prod.mk.injEq] at hcount
        refine h fun leases' hleases => ?_
        rw [hl] at hleases
        cases hleases
        refine ⟨hdur, fun h0 => ?_⟩
        rw [← hcount.1, if_pos h0, expected, if_pos h0] at heq
        exact heq.symm
      · simp [countValid_panics 0 hdur] at hcount

theorem counts_iff (hlc : lc.fallbackCount = fallback earlier) (calls : List CountCall) :
    lc.counts calls = some (expectedAll earlier calls) ↔ RegularAll earlier calls := by
  induction calls generalizing lc earlier with
  | nil => exact ⟨fun _ => trivial, fun _ => rfl⟩
  | cons call calls ih =>
      rw [ServerLeaseCounter.counts, expectedAll, RegularAll]
      by_cases hreg : call.Regular earlier
      · obtain ⟨lc', hcount, hlc'⟩ := count_regular hlc hreg
        rw [hcount, and_iff_right hreg, ← ih hlc']
        change ((lc'.counts calls).bind fun ns => some (call.expected earlier :: ns)) = _ ↔ _
        cases lc'.counts calls with
        | none => simp
        | some ns => simp
      · refine ⟨fun hsome => ?_, fun hall => absurd hall.1 hreg⟩
        cases hcount : lc.count call with
        | none =>
            rw [hcount] at hsome
            cases hsome
        | some r =>
            rw [hcount] at hsome
            change ((r.2.counts calls).bind fun ns => some (r.1 :: ns)) = _ at hsome
            obtain ⟨ns, -, heq⟩ := Option.bind_eq_some_iff.mp hsome
            injection heq with heq
            injection heq with heq
            exact absurd heq (count_irregular hreg r.1 r.2 hcount)

theorem expectedAll_pos (earlier calls : List CountCall) :
    ∀ n ∈ expectedAll earlier calls, 1 ≤ n := by
  induction calls generalizing earlier with
  | nil => exact fun n hn => nomatch hn
  | cons call calls ih =>
      intro n hn
      rcases List.mem_cons.mp hn with rfl | hn
      · exact expected_pos earlier call
      · exact ih (call :: earlier) n hn

end Calls

/-- A run of `Count` that does not panic and returns what it should. -/
def CountsRight (calls : List CountCall) : Prop :=
  ∃ ns, newServerLeaseCounter.counts calls = some ns ∧ ns = expectedAll [] calls ∧ ∀ n ∈ ns, 1 ≤ n

/-- A run is right exactly if every call of it is regular. -/
theorem counts_right_iff (calls : List CountCall) : CountsRight calls ↔ RegularAll [] calls := by
  have hfresh : newServerLeaseCounter.fallbackCount = fallback [] := rfl
  rw [← counts_iff hfresh calls]
  constructor
  · rintro ⟨ns, hns, rfl, -⟩
    exact hns
  · intro h
    exact ⟨_, h, rfl, expectedAll_pos [] calls⟩

/-- Three valid leases, then the same three when they have expired, then an error;
and a lease that was renewed and has no duration. -/
theorem counts_forgets_fallback :
    let lease : String → Lease := fun name =>
      { name := name, resourceVersion := "1", renewTime := some 0, leaseDurationSeconds := some 10 }
    let leases := [lease "a", lease "b", lease "c"]
    let expire : List CountCall :=
      [⟨some leases, fun _ => 0⟩, ⟨some leases, fun _ => 20 * second⟩, ⟨none, fun _ => 20 * second⟩]
    let unlimited : List CountCall :=
      [⟨some [{ lease "a" with leaseDurationSeconds := none }], fun _ => 0⟩]
    newServerLeaseCounter.counts expire = some [3, 1, 1] ∧ ¬ CountsRight expire ∧
      newServerLeaseCounter.counts unlimited = none ∧ ¬ CountsRight unlimited := by
  intro lease leases expire unlimited
  have hexpire : newServerLeaseCounter.counts expire = some [3, 1, 1] := by decide
  have hpanic : newServerLeaseCounter.counts unlimited = none := by decide
  refine ⟨hexpire, ?_, hpanic, ?_⟩
  · rintro ⟨ns, hns, rfl, -⟩
    rw [hexpire] at hns
    exact absurd (Option.some.inj hns) (by decide)
  · rintro ⟨ns, hns, -⟩
    rw [hpanic] at hns
    cases hns

end Konnectivity.Agent
