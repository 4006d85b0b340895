import Mathlib.Algebra.Ring.Int.Defs
import Konnectivity.Proofs.Registry

/-!
# What a selection guarantees

`getBackend` asks the managers in the order of the strategies. Its contract
holds in every state the managers can reach, for every address, every
sequence of random draws and whatever flags are set while the call runs: it
answers, it answers "no agent available" exactly when no manager has a
candidate, and otherwise the first manager that has one decides.

The cost comparison of two sampled agents is made in `int64` nanoseconds.
`exactCost` is the same product over the integers; where it can be doubled
without leaving the range, the comparison means what it says.
-/

namespace Konnectivity

open Lib

/-! ## The cost of a dial, without wrapping -/

/-- The dial cost as an integer. -/
def DialStats.exactCost (b : DialStats) (now : Int) : Int :=
  let latency :=
    match b.dialLatencyAt with
    | none => dialLatencyFloor
    | some at_ =>
        if now - at_ ≤ dialLatencyWindow ∧ dialLatencyFloor < b.dialLatency then
          b.dialLatency
        else dialLatencyFloor
  latency.toInt * ((if b.dialsInFlight < 0 then 0 else b.dialsInFlight).toInt + 1)

/-- The doubled cost is still an `int64`. -/
def DialStats.CostInRange (b : DialStats) (now : Int) : Prop :=
  2 * b.exactCost now < 2 ^ 63

theorem toInt_latency_mul {latency inFlight : Int64} (hl : 5000000 ≤ latency.toInt)
    (hi : 0 ≤ inFlight.toInt) (hfit : 2 * (latency.toInt * (inFlight.toInt + 1)) < 2 ^ 63) :
    (latency * (inFlight + 1)).toInt = latency.toInt * (inFlight.toInt + 1) := by
  have hone : (1 : Int64).toInt = 1 := rfl
  -- The product bounds its second factor, so the increment does not wrap either.
  have hle : 1 * (inFlight.toInt + 1) ≤ latency.toInt * (inFlight.toInt + 1) :=
    Int.mul_le_mul_of_nonneg_right (by omega) (by omega)
  have hadd : (inFlight + 1).toInt = inFlight.toInt + 1 := by
    rw [Int64.toInt_add, hone]
    exact Int.bmod_eq_of_le (by omega) (by omega)
  rw [Int64.toInt_mul, hadd]
  exact Int.bmod_eq_of_le (by omega) (by omega)

theorem DialStats.dialCost_exact {b : DialStats} {now : Int} (h : b.CostInRange now) :
    (b.dialCost now).toInt = b.exactCost now ∧ 0 < b.exactCost now := by
  unfold CostInRange exactCost at h
  unfold dialCost exactCost
  dsimp only at h ⊢
  have hfloor : dialLatencyFloor.toInt = 5000000 := rfl
  have hlat : 5000000 ≤ (match b.dialLatencyAt with
      | none => dialLatencyFloor
      | some at_ =>
          if now - at_ ≤ dialLatencyWindow ∧ dialLatencyFloor < b.dialLatency then b.dialLatency
          else dialLatencyFloor).toInt := by
    split
    · exact Int.le_of_eq hfloor.symm
    · split
      · next hc =>
          have := Int64.lt_iff_toInt_lt.mp hc.2
          omega
      · exact Int.le_of_eq hfloor.symm
  have hin : 0 ≤ (if b.dialsInFlight < 0 then 0 else b.dialsInFlight).toInt := by
    split
    · exact Int.le_refl 0
    · next hc =>
        have hz : (0 : Int64).toInt = 0 := rfl
        have := mt Int64.lt_iff_toInt_lt.mpr hc
        omega
  refine ⟨toInt_latency_mul hlat hin h, ?_⟩
  have : 0 < (if b.dialsInFlight < 0 then 0 else b.dialsInFlight).toInt + 1 := by omega
  exact Int.mul_pos (by omega) this

/-- A candidate at least twice as dear as the other is not chosen. -/
theorem preferredBackend_cost (env : SelectEnv) (draw : Nat) {first second : BackendId}
    (h1 : (env.stats first).CostInRange env.now)
    (h2 : (env.stats second).CostInRange env.now) :
    (2 * (env.stats first).exactCost env.now ≤ (env.stats second).exactCost env.now →
        preferredBackend env draw first second = first) ∧
      (2 * (env.stats second).exactCost env.now ≤ (env.stats first).exactCost env.now →
        preferredBackend env draw first second = second) := by
  obtain ⟨hf, hf0⟩ := DialStats.dialCost_exact h1
  obtain ⟨hs, hs0⟩ := DialStats.dialCost_exact h2
  unfold DialStats.CostInRange at h1 h2
  have htwo : (2 : Int64).toInt = 2 := rfl
  have double : ∀ {c : Int64} {e : Int}, c.toInt = e → 0 < e → 2 * e < 2 ^ 63 →
      (2 * c).toInt = 2 * e := by
    intro c e hc h0 hlt
    rw [Int64.toInt_mul, htwo, hc]
    exact Int.bmod_eq_of_le (by omega) (by omega)
  have hdf := double hf hf0 h1
  have hds := double hs hs0 h2
  unfold preferredBackend
  simp only [Int64.le_iff_toInt_le, hdf, hds, hf, hs]
  constructor
  · intro hle
    rw [if_pos hle]
  · intro hle
    rw [if_neg (by omega), if_pos hle]

/-! ## The contract -/

/-- A manager only ever holds backends under identifiers they advertise. -/
theorem RegInv.registered_advertises {strategies : List ProxyStrategy}
    {info : BackendId → BackendInfo} {s : Registry} (h : RegInv strategies info s)
    {m : BackendManager} (hm : m ∈ s.managers) {k : String} {b : BackendId}
    (hb : b ∈ m.storage.registered k) : ∃ t, (k, t) ∈ advertised m.strategy (info b) := by
  obtain ⟨i, hi⟩ := List.mem_iff_getElem?.mp hm
  have hsome := (h.managers.filed i m k b hi).mp hb
  have hphase := h.phase b
  have hstep : ∃ t, (⟨i, k, t⟩ : MicroStep) ∈ microSteps strategies (info b) := by
    cases hp : s.phase b with
    | absent =>
        rw [hp] at hphase
        rw [hphase i k] at hsome
        cases hsome
    | added =>
        rw [hp] at hphase
        exact (hphase i k).mp hsome
    | adding rest =>
        rw [hp] at hphase
        exact hphase.2.2 i k hsome
    | removing rest =>
        rw [hp] at hphase
        obtain ⟨t, ht⟩ := hphase.2 i k hsome
        exact ⟨t, hphase.1 _ ht⟩
  obtain ⟨t, ht⟩ := hstep
  obtain ⟨ps, hps, hadv⟩ := mem_microSteps.mp ht
  rw [h.managers.strategy_at hi] at hps
  injection hps with hps
  exact ⟨t, hps ▸ hadv⟩

/-- In every reachable state `getBackend` answers. It answers `ErrNotFound`
exactly when no manager has a candidate; otherwise the backend comes from the
first manager that has one, chosen as `ManagerPick` says, and of two sampled
candidates never the one at least twice as dear. -/
theorem getBackend_contract {strategies : List ProxyStrategy} {info : BackendId → BackendInfo}
    {s : Registry} (h : Registry.Reachable strategies info s) (reqHost : String)
    (env : SelectEnv) :
    ∃ host ms c pick, removePortFromHost reqHost = some host ∧
      getBackend strategies s.managers env s.draining reqHost = .ok (ms, c, pick) ∧
      (pick = none ↔ ∀ m ∈ s.managers, ¬ m.hasCandidate host) ∧
      (∀ p, pick = some p → ∃ pre m post, s.managers = pre ++ m :: post ∧
        (∀ m' ∈ pre, ¬ m'.hasCandidate host) ∧
        ManagerPick env s.draining m host 0 c.reads (some p)) ∧
      (∀ first second selected, pick = some (.preferred first second selected) →
        (selected = first ∨ selected = second) ∧
        ((env.stats first).CostInRange env.now → (env.stats second).CostInRange env.now →
          (2 * (env.stats first).exactCost env.now ≤ (env.stats second).exactCost env.now →
            selected = first) ∧
          (2 * (env.stats second).exactCost env.now ≤ (env.stats first).exactCost env.now →
            selected = second))) ∧
      ∀ m ∈ s.managers, ∀ k, ∀ b ∈ m.storage.registered k,
        ∃ t, (k, t) ∈ advertised m.strategy (info b) := by
  have hinv := h.inv
  obtain ⟨host, hhost⟩ := removePortFromHost_isSome reqHost
  obtain ⟨ctx, hctx, hdest⟩ := hinv.managers.context hhost
  obtain ⟨ms, c, pick, hloop, -, hcase⟩ :=
    @getBackendLoop_spec env s.draining ctx host s.managers {} fun m hm => by
      obtain ⟨i, hi⟩ := List.mem_iff_getElem?.mp hm
      exact ⟨(hinv.managers.managerInv hi).mono fun _ => SelectEnv.flags_of_draining, hdest m hm⟩
  have hfound : ∀ p, pick = some p → ∃ pre m post, s.managers = pre ++ m :: post ∧
      (∀ m' ∈ pre, ¬ m'.hasCandidate host) ∧
      ManagerPick env s.draining m host 0 c.reads (some p) := by
    intro p hp
    rcases hcase with ⟨hnone, -⟩ | ⟨p', pre, m, post, hp', hsplit, hpre, hpick⟩
    · rw [hp] at hnone
      cases hnone
    · rw [hp] at hp'
      injection hp' with hp'
      exact ⟨pre, m, post, hsplit, hpre, hp' ▸ hpick⟩
  refine ⟨host, ms, c, pick, hhost, ?_, ⟨?_, ?_⟩, hfound, ?_, ?_⟩
  · simp only [getBackend, hctx, bind, Except.bind]
    exact hloop
  · rintro rfl
    rcases hcase with ⟨-, hnone⟩ | ⟨p, _, _, _, hp, -⟩
    · exact hnone
    · cases hp
  · intro hnone
    cases hpick : pick with
    | none => rfl
    | some p =>
        obtain ⟨pre, m, post, hsplit, -, hmp⟩ := hfound p hpick
        exact absurd hmp.1 (hnone m (by rw [hsplit]; simp))
  · intro first second selected hp
    obtain ⟨pre, m, post, -, -, -, hmp⟩ := hfound _ hp
    -- Only the random managers sample two candidates.
    have hrandom : ∃ draw, selected = preferredBackend env draw first second := by
      cases hs : m.strategy with
      | default => simp only [hs] at hmp; exact hmp.2.2.2
      | defaultRoute => simp only [hs] at hmp; exact hmp.2.2.2
      | destHost =>
          simp only [hs] at hmp
          obtain ⟨b, hb, -⟩ := hmp
          cases hb
    obtain ⟨draw, rfl⟩ := hrandom
    refine ⟨?_, fun h1 h2 => preferredBackend_cost env draw h1 h2⟩
    unfold preferredBackend lessOccupiedBackend
    dsimp only
    split_ifs <;> simp
  · intro m hm k b hb
    exact hinv.registered_advertises hm hb

/-- Three agents, one of them draining, and a flag set during the call. -/
theorem getBackend_contract_retiring :
    let strategies := [ProxyStrategy.destHost, .default]
    let info := fun b : BackendId => ({ id := toString b } : BackendInfo)
    let env : SelectEnv :=
      { draws := id, sets := [(0, 1)], stats := fun _ => {}, now := 0,
        occupancyLt := fun _ _ => false }
    ∃ s, Registry.Reachable strategies info s ∧ s.phase 2 = .added ∧
      ∃ host ms c pick, removePortFromHost "10.0.0.1:443" = some host ∧
        getBackend strategies s.managers env s.draining "10.0.0.1:443" = .ok (ms, c, pick) ∧
        (pick = none ↔ ∀ m ∈ s.managers, ¬ m.hasCandidate host) ∧
        ∀ p, pick = some p → ∃ pre m post, s.managers = pre ++ m :: post ∧
          (∀ m' ∈ pre, ¬ m'.hasCandidate host) ∧
          ManagerPick env s.draining m host 0 c.reads (some p) := by
  intro strategies info env
  let acts : List RegAction :=
    [.addBackend 0, .connectStep 0, .connectStep 0, .addBackend 1, .connectStep 1,
      .connectStep 1, .addBackend 2, .connectStep 2, .connectStep 2, .markBackendDraining 0,
      .markStep 0]
  have hrun : ∃ s, run (Registry.step strategies info) (newProxyServer strategies) acts = some s ∧
      s.phase 2 = .added := ⟨_, rfl, rfl⟩
  obtain ⟨s, hs, h2⟩ := hrun
  have hreach : Registry.Reachable strategies info s := reach_of_run_any hs
  obtain ⟨host, ms, c, pick, hhost, hget, hnone, hsome, -⟩ :=
    getBackend_contract hreach "10.0.0.1:443" env
  exact ⟨s, hreach, h2, host, ms, c, pick, hhost, hget, hnone, hsome⟩

end Konnectivity
