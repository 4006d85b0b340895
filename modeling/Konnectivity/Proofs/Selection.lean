import Konnectivity.Proofs.StorageInv

/-!
# Selections are safe and pick what they promise

The retry loop of `GetRandomBackend` repairs the index it draws from. Two
facts carry the proof. The storage invariant says that every identifier in
the index has a first backend, so no access is out of range; and since flags
are never unset, an entry found stale is still stale when it is repaired, so
every retry shortens the non-draining list and the fuel covers the loop.

What comes out of a selection is described by `RandomPick`, relative to the
interval of flag reads the call made: a backend that was observed non-draining
in that interval, or, when the non-draining list has run out, the first
backend of an agent while the first backends of all agents are draining.
-/

namespace Konnectivity

open Lib

/-! ## Flags -/

section Flags

variable {env : SelectEnv} {draining : BackendId → Bool} {b : BackendId}

theorem SelectEnv.flags_mono {k k' : Nat} (hle : k ≤ k')
    (h : env.flags draining k b = true) : env.flags draining k' b = true := by
  unfold SelectEnv.flags at h ⊢
  rw [Bool.or_eq_true] at h ⊢
  rcases h with h | h
  · exact Or.inl h
  · refine Or.inr (List.any_eq_true.mpr ?_)
    obtain ⟨x, hx, hc⟩ := List.any_eq_true.mp h
    simp only [Bool.and_eq_true, decide_eq_true_eq] at hc
    exact ⟨x, hx, by simp only [Bool.and_eq_true, decide_eq_true_eq]; exact ⟨by omega, hc.2⟩⟩

theorem SelectEnv.flags_of_draining {k : Nat} (h : draining b = true) :
    env.flags draining k b = true := by
  rw [SelectEnv.flags, h, Bool.true_or]

theorem SelectEnv.flagsAfter_of_flags {k : Nat} (h : env.flags draining k b = true) :
    env.flagsAfter draining b = true := by
  unfold SelectEnv.flags at h
  unfold SelectEnv.flagsAfter
  rw [Bool.or_eq_true] at h ⊢
  rcases h with h | h
  · exact Or.inl h
  · refine Or.inr (List.any_eq_true.mpr ?_)
    obtain ⟨x, hx, hc⟩ := List.any_eq_true.mp h
    simp only [Bool.and_eq_true, decide_eq_true_eq] at hc
    exact ⟨x, hx, by simpa using hc.2⟩

end Flags

/-! ## Accesses in range -/

theorem index_ok {α : Type} {l : List α} {i : Nat} (h : i < l.length) :
    index l i = .ok l[i] := by
  rw [index, List.getElem?_eq_getElem h]

theorem index_head {α : Type} {l : List α} (h : l ≠ []) :
    ∃ a, l.head? = some a ∧ index l 0 = .ok a := by
  cases l with
  | nil => exact absurd rfl h
  | cons a l => exact ⟨a, rfl, rfl⟩

theorem intn_ok {n : Nat} (draw : Nat) (h : 0 < n) :
    ∃ i, intn n draw = .ok i ∧ i < n :=
  ⟨draw % n, by rw [intn, if_neg (by omega)], Nat.mod_lt _ h⟩

/-! ## What a random selection returns -/

/-- Some flag read of the interval found the backend non-draining. -/
def observedNonDraining (env : SelectEnv) (draining : BackendId → Bool) (lo hi : Nat)
    (b : BackendId) : Prop :=
  ∃ r, lo ≤ r ∧ r < hi ∧ env.flags draining r b = false

theorem observedNonDraining.widen {env : SelectEnv} {draining : BackendId → Bool}
    {lo lo' hi : Nat} {b : BackendId} (hle : lo ≤ lo')
    (h : observedNonDraining env draining lo' hi b) :
    observedNonDraining env draining lo hi b := by
  obtain ⟨r, h1, h2, h3⟩ := h
  exact ⟨r, Nat.le_trans hle h1, h2, h3⟩

/-- The outcome of a random selection over the registration `reg`, by a call
that made the flag reads from `lo` up to `hi`. -/
def RandomPick (env : SelectEnv) (draining : BackendId → Bool)
    (reg : String → List BackendId) (lo hi : Nat) : Option Pick → Prop
  | none => ∀ k, reg k = []
  | some (.sole b) => (∃ k, (reg k).head? = some b) ∧ observedNonDraining env draining lo hi b
  | some (.preferred first second selected) =>
      (∃ k k', k ≠ k' ∧ (reg k).head? = some first ∧ (reg k').head? = some second) ∧
        observedNonDraining env draining lo hi first ∧
        observedNonDraining env draining lo hi second ∧
        ∃ draw, selected = preferredBackend env draw first second
  | some (.fallback b) =>
      (∃ k, (reg k).head? = some b) ∧
        ∀ k b', (reg k).head? = some b' → env.flags draining hi b' = true
  | some (.destHost _) => False

theorem RandomPick.widen {env : SelectEnv} {draining : BackendId → Bool}
    {reg : String → List BackendId} {lo lo' hi : Nat} {pick : Option Pick} (hle : lo ≤ lo')
    (h : RandomPick env draining reg lo' hi pick) : RandomPick env draining reg lo hi pick := by
  match pick with
  | none => exact h
  | some (.sole b) => exact ⟨h.1, h.2.widen hle⟩
  | some (.preferred first second selected) =>
      exact ⟨h.1, h.2.1.widen hle, h.2.2.1.widen hle, h.2.2.2⟩
  | some (.fallback b) => exact h
  | some (.destHost b) => exact h

/-- What the loop promises of its result. -/
structure SelectSpec (env : SelectEnv) (draining : BackendId → Bool) (s : BackendStorage)
    (c : Cursor) (r : BackendStorage × Cursor × Option Pick) : Prop where
  inv : StorageInv (env.flags draining r.2.1.reads) r.1
  registered : ∀ k, r.1.registered k = s.registered k
  kind : s.sameKind r.1
  reads : c.reads ≤ r.2.1.reads
  pick : RandomPick env draining s.registered c.reads r.2.1.reads r.2.2

namespace BackendStorage

variable {env : SelectEnv} {draining : BackendId → Bool}

/-- Refreshing an identifier whose first backend drains takes it out of the
non-draining list. -/
theorem refresh_stale_length {d : BackendId → Bool} {s : BackendStorage} {k : String}
    {b : BackendId} (hb : (s.registered k).head? = some b) (hd : d b = true)
    (hk : k ∈ s.nonDrainingAgentIDs) :
    (s.refreshIdentifierState d k).nonDrainingAgentIDs.length =
      s.nonDrainingAgentIDs.length - 1 := by
  have hlen := removeIdentifier_length hk
  unfold registered at hb
  unfold refreshIdentifierState
  split
  · next hnil => rw [hnil] at hb; cases hb
  · next primary tail hcons =>
      rw [hcons] at hb
      injection hb with hb
      subst hb
      rw [if_pos hd]
      dsimp only
      split <;> exact hlen

theorem selectDraining_spec {s : BackendStorage} {c : Cursor}
    (h : StorageInv (env.flags draining c.reads) s)
    (hm : s.maintainRandomRoutingIndex = true) (hnil : s.nonDrainingAgentIDs = []) :
    ∃ r, s.selectDraining env c = .ok r ∧ SelectSpec env draining s c r := by
  have hi := h.index hm
  unfold selectDraining
  by_cases hlen : 0 < s.drainingAgentIDs.length
  · rw [if_pos hlen]
    obtain ⟨i, hi1, hi2⟩ := intn_ok (env.draws c.draws) hlen
    have hmem : s.drainingAgentIDs[i] ∈ s.drainingAgentIDs := List.getElem_mem hi2
    obtain ⟨b, hb, hidx⟩ := index_head ((hi.keys s.drainingAgentIDs[i]).mp (Or.inr hmem))
    refine ⟨(s, { c with draws := c.draws + 1 }, some (.fallback b)), ?_,
      ⟨h, fun _ => rfl, ⟨rfl, rfl⟩, Nat.le_refl _, ⟨_, hb⟩, ?_⟩⟩
    · simp only [bind, Except.bind, pure, Except.pure, hi1, index_ok hi2, hidx]
    · intro k b' hk
      -- Every registered identifier is filed as draining, so its primary drains.
      have hreg : s.registered k ≠ [] := by intro hz; rw [hz] at hk; cases hk
      rcases (hi.keys k).mpr hreg with hin | hin
      · rw [hnil] at hin; cases hin
      · obtain ⟨p, hp, hd⟩ := hi.primary k hin
        rw [hk] at hp
        injection hp with hp
        rw [hp]
        exact hd
  · rw [if_neg hlen]
    refine ⟨(s, c, none), rfl, ⟨h, fun _ => rfl, ⟨rfl, rfl⟩, Nat.le_refl _, fun k => ?_⟩⟩
    have hdr : s.drainingAgentIDs = [] := List.length_eq_zero_iff.mp (by omega)
    refine Classical.byContradiction fun hne => ?_
    have := (hi.keys k).mpr hne
    rw [hnil, hdr] at this
    simp at this

/-- The random managers' loop ends on its fuel, faults nowhere, keeps the
invariant, and returns what `RandomPick` says. -/
theorem selectLoop_spec : ∀ {fuel : Nat} {s : BackendStorage} {c : Cursor},
    StorageInv (env.flags draining c.reads) s → s.maintainRandomRoutingIndex = true →
    s.nonDrainingAgentIDs.length < fuel →
    ∃ r, selectLoop env draining fuel s c = .ok r ∧ SelectSpec env draining s c r := by
  intro fuel
  induction fuel with
  | zero => intro s c _ _ hf; omega
  | succ fuel ih =>
      intro s c h hm hf
      rw [selectLoop]
      split
      · next hz => exact selectDraining_spec h hm (List.length_eq_zero_iff.mp hz)
      · next hz =>
          have hi := h.index hm
          -- A repaired storage is back in the situation of the loop's head.
          have retry : ∀ {k : String} {b : BackendId} (lo hi' draws : Nat),
              k ∈ s.nonDrainingAgentIDs → (s.registered k).head? = some b →
              env.flags draining lo b = true → c.reads ≤ lo → lo < hi' →
              ∃ r, selectLoop env draining fuel
                (s.refreshIdentifierState (env.flags draining lo) k) ⟨hi', draws⟩ = .ok r ∧
                SelectSpec env draining s c r := by
            intro k b lo hi' draws hk hb hd hlo hlt
            have hinv : StorageInv (env.flags draining hi')
                (s.refreshIdentifierState (env.flags draining lo) k) :=
              (refresh_inv (h.mono fun _ => SelectEnv.flags_mono hlo) k).mono
                fun _ => SelectEnv.flags_mono (Nat.le_of_lt hlt)
            have hkind := refresh_sameKind (env.flags draining lo) s k
            obtain ⟨r, hr, spec⟩ := ih (c := ⟨hi', draws⟩) hinv (hkind.1.trans hm)
              (by rw [refresh_stale_length hb hd hk]; omega)
            refine ⟨r, hr, spec.inv, ?_, ?_, ?_, ?_⟩
            · intro k'; rw [spec.registered, refresh_registered]
            · exact ⟨spec.kind.1.trans hkind.1, spec.kind.2.trans hkind.2⟩
            · have := spec.reads
              simp only at this
              omega
            · have hfun : (s.refreshIdentifierState (env.flags draining lo) k).registered =
                  s.registered := funext fun _ => refresh_registered ..
              rw [← hfun]
              exact spec.pick.widen (by simp only; omega)
          obtain ⟨i, hi1, hi2⟩ := intn_ok (env.draws c.draws)
            (show 0 < s.nonDrainingAgentIDs.length by omega)
          have hmem : s.nonDrainingAgentIDs[i] ∈ s.nonDrainingAgentIDs := List.getElem_mem hi2
          obtain ⟨first, hfirst, hidx⟩ := index_head ((hi.keys _).mp (Or.inl hmem))
          simp only [bind, Except.bind, pure, Except.pure, hi1, index_ok hi2, hidx]
          split
          · next hd =>
              exact retry _ _ _ hmem hfirst (SelectEnv.flags_mono (Nat.le_succ _) hd)
                (Nat.le_succ _) (Nat.lt_succ_self _)
          · next hd =>
              have hobs : env.flags draining c.reads first = false := by simpa using hd
              split
              · exact ⟨_, rfl, h.mono fun _ => SelectEnv.flags_mono (Nat.le_succ _),
                  fun _ => rfl, ⟨rfl, rfl⟩, Nat.le_succ _, ⟨_, hfirst⟩,
                  c.reads, Nat.le_refl _, Nat.lt_succ_self _, hobs⟩
              · next hone =>
                  obtain ⟨j, hj1, hj2⟩ := intn_ok (env.draws (c.draws + 1))
                    (show 0 < s.nonDrainingAgentIDs.length - 1 by omega)
                  simp only [hj1]
                  -- The index shift makes the second candidate differ from the first.
                  generalize hsec : (if i ≤ j then j + 1 else j) = second_
                  have hlt : second_ < s.nonDrainingAgentIDs.length := by
                    subst hsec; split <;> omega
                  have hne : second_ ≠ i := by subst hsec; split <;> omega
                  have hmem' : s.nonDrainingAgentIDs[second_] ∈ s.nonDrainingAgentIDs :=
                    List.getElem_mem hlt
                  obtain ⟨second, hsecond, hidx'⟩ := index_head ((hi.keys _).mp (Or.inl hmem'))
                  simp only [index_ok hlt, hidx']
                  split
                  · next hd' =>
                      exact retry _ _ _ hmem' hsecond (SelectEnv.flags_mono (Nat.le_succ _) hd')
                        (by omega) (by omega)
                  · next hd' =>
                      have hobs' : env.flags draining (c.reads + 1) second = false := by
                        simpa using hd'
                      refine ⟨_, rfl, h.mono fun _ => SelectEnv.flags_mono (by simp only; omega),
                        fun _ => rfl, ⟨rfl, rfl⟩, by simp only; omega, ?_, ?_, ?_, ⟨_, rfl⟩⟩
                      · refine ⟨_, _, fun heq => hne ?_, hfirst, hsecond⟩
                        exact ((List.Nodup.getElem_inj_iff hi.nonDraining_nodup).mp heq).symm
                      · exact ⟨c.reads, Nat.le_refl _, by simp only; omega, hobs⟩
                      · exact ⟨c.reads + 1, by omega, by simp only; omega, hobs'⟩

theorem size_eq_zero_iff {s : BackendStorage} (h : ∀ k, s.backends.lookup k ≠ some []) :
    s.backends.size = 0 ↔ ∀ k, s.registered k = [] := by
  constructor
  · intro hz k
    rw [registered_eq_nil_iff h, AList.lookup_eq_none, AList.mem_keys]
    unfold GoMap.size at hz
    rw [List.length_eq_zero_iff] at hz
    simp [AList.keys, List.keys, hz]
  · intro hall
    unfold GoMap.size
    rw [List.length_eq_zero_iff]
    cases he : s.backends.entries with
    | nil => rfl
    | cons e es =>
        have hmem : (⟨e.1, e.2⟩ : Sigma fun _ : String => List BackendId) ∈ s.backends.entries := by
          rw [he]; simp
        have hl := GoMap.lookup_eq_some_iff.mpr hmem
        have hn := (registered_eq_nil_iff h).mp (hall e.1)
        rw [hl] at hn
        cases hn

theorem getRandomBackend_spec {s : BackendStorage} {c : Cursor}
    (h : StorageInv (env.flags draining c.reads) s)
    (hm : s.maintainRandomRoutingIndex = true) :
    ∃ r, s.getRandomBackend env draining c = .ok r ∧ SelectSpec env draining s c r := by
  unfold getRandomBackend
  split
  · next hz =>
      exact ⟨_, rfl, h, fun _ => rfl, ⟨rfl, rfl⟩, Nat.le_refl _,
        (size_eq_zero_iff h.nonempty).mp hz⟩
  · exact selectLoop_spec h hm (Nat.lt_succ_self _)

end BackendStorage

/-! ## Selection by destination host -/

/-- Some flag read of the interval found the backend draining. -/
def observedDraining (env : SelectEnv) (draining : BackendId → Bool) (lo hi : Nat)
    (b : BackendId) : Prop :=
  ∃ r, lo ≤ r ∧ r < hi ∧ env.flags draining r b = true

/-- The outcome of a selection among the backends filed under the host: the
earliest one observed non-draining, or the earliest if all were observed
draining. -/
def DestHostPick (env : SelectEnv) (draining : BackendId → Bool) (bes : List BackendId)
    (lo hi : Nat) (b : BackendId) : Prop :=
  (∃ pre post, bes = pre ++ b :: post ∧
      (∀ x ∈ pre, observedDraining env draining lo hi x) ∧
      observedNonDraining env draining lo hi b) ∨
    (bes.head? = some b ∧ ∀ x ∈ bes, observedDraining env draining lo hi x)

namespace BackendStorage

variable {env : SelectEnv} {draining : BackendId → Bool}

theorem destHostLoop_spec : ∀ {bes : List BackendId} {k : Nat} {acc : Option BackendId},
    ∃ r k', destHostLoop env draining bes k acc = (r, k') ∧ k ≤ k' ∧
      ((∃ pre b post, bes = pre ++ b :: post ∧ r = some b ∧
          (∀ x ∈ pre, observedDraining env draining k k' x) ∧
          observedNonDraining env draining k k' b) ∨
        (r = acc.or bes.head? ∧ ∀ x ∈ bes, observedDraining env draining k k' x)) := by
  intro bes
  induction bes with
  | nil => intro k acc; exact ⟨acc, k, rfl, Nat.le_refl _, Or.inr (by simp)⟩
  | cons b bes ih =>
      intro k acc
      rw [destHostLoop]
      split
      · next hb =>
          refine ⟨some b, k + 1, rfl, Nat.le_succ _, Or.inl ⟨[], b, bes, rfl, rfl, by simp, ?_⟩⟩
          exact ⟨k, Nat.le_refl _, Nat.lt_succ_self _, by simpa using hb⟩
      · next hb =>
          have hd : env.flags draining k b = true := by simpa using hb
          obtain ⟨r, k', hr, hle, hcase⟩ := @ih (k + 1) (acc.orElse fun _ => some b)
          have hown : observedDraining env draining k k' b :=
            ⟨k, Nat.le_refl _, by omega, hd⟩
          have hwiden : ∀ x, observedDraining env draining (k + 1) k' x →
              observedDraining env draining k k' x := by
            rintro x ⟨r, h1, h2, h3⟩
            exact ⟨r, by omega, h2, h3⟩
          refine ⟨r, k', hr, by omega, ?_⟩
          rcases hcase with ⟨pre, b', post, hbes, hrb, hpre, hobs⟩ | ⟨hracc, hall⟩
          · refine Or.inl ⟨b :: pre, b', post, by rw [hbes]; rfl, hrb, ?_, ?_⟩
            · intro x hx
              rcases List.mem_cons.mp hx with rfl | hx
              · exact hown
              · exact hwiden x (hpre x hx)
            · exact hobs.widen (Nat.le_succ _)
          · refine Or.inr ⟨?_, ?_⟩
            · rw [hracc]
              cases acc with
              | none => simp
              | some a => simp
            · intro x hx
              rcases List.mem_cons.mp hx with rfl | hx
              · exact hown
              · exact hwiden x (hall x hx)

/-- Destination-host selection leaves the storage alone, and answers from the
list filed under the host. -/
theorem destHostBackend_spec {s : BackendStorage} (hne : ∀ k, s.backends.lookup k ≠ some [])
    (destHost : String) (c : Cursor) :
    ∃ c' pick, s.destHostBackend env draining (some destHost) c = .ok (s, c', pick) ∧
      c.reads ≤ c'.reads ∧
      (pick = none → destHost = "" ∨ s.registered destHost = []) ∧
      ∀ p, pick = some p → destHost ≠ "" ∧
        ∃ b, p = .destHost b ∧
          DestHostPick env draining (s.registered destHost) c.reads c'.reads b := by
  unfold destHostBackend
  split
  · next hz =>
      refine ⟨c, none, rfl, Nat.le_refl _, fun _ => Or.inr ?_, fun p hp => by cases hp⟩
      exact (size_eq_zero_iff hne).mp hz destHost
  · next hz =>
      dsimp only
      split
      · next hhost =>
          cases hl : s.backends.lookup destHost with
          | none =>
              refine ⟨c, none, rfl, Nat.le_refl _, fun _ => Or.inr ?_, fun p hp => by cases hp⟩
              rw [registered, hl]
              rfl
          | some bes =>
              have hreg : s.registered destHost = bes := by rw [registered, hl]; rfl
              have hbes : bes ≠ [] := fun hb => hne destHost (by rw [hl, hb])
              obtain ⟨r, k', hr, hle, hcase⟩ :=
                @destHostLoop_spec env draining bes c.reads none
              dsimp only
              rw [hr, hreg]
              refine ⟨{ c with reads := k' }, r.map .destHost, rfl, hle, ?_, ?_⟩
              · intro hnone
                rcases hcase with ⟨pre, b, post, -, hrb, -⟩ | ⟨hracc, -⟩
                · rw [hrb] at hnone; cases hnone
                · obtain ⟨a, l, rfl⟩ := List.exists_cons_of_ne_nil hbes
                  rw [hracc] at hnone
                  cases hnone
              · intro p hp
                refine ⟨hhost, ?_⟩
                obtain ⟨b, rfl, rfl⟩ := Option.map_eq_some_iff.mp hp
                refine ⟨b, rfl, ?_⟩
                rcases hcase with ⟨pre, b', post, hsplit, hrb, hpre, hobs⟩ | ⟨hracc, hall⟩
                · injection hrb with hrb
                  subst hrb
                  exact Or.inl ⟨pre, post, hsplit, hpre, hobs⟩
                · exact Or.inr ⟨by simpa using hracc.symm, hall⟩
      · next hhost =>
          exact ⟨c, none, rfl, Nat.le_refl _, fun _ => Or.inl (by simpa using hhost),
            fun p hp => by cases hp⟩

end BackendStorage

/-! ## The context -/

theorem mem_of_containIPv6Addr {host : List Char} (h : containIPv6Addr host = true) :
    ':' ∈ host := by
  refine Classical.byContradiction fun hn => ?_
  rw [containIPv6Addr, List.splitOn_eq_singleton hn] at h
  simp at h

/-- `RemovePortFromHost` never slices out of range. -/
theorem removePortFromHost_isSome (host : String) :
    ∃ h, removePortFromHost host = some h := by
  have hchars : ∃ h, removePortFromChars host.toList = some h := by
    unfold removePortFromChars
    split
    · next hv4 =>
        obtain ⟨a, l, hl⟩ := List.exists_cons_of_ne_nil (List.splitOn_ne_nil ':' host.toList)
        exact ⟨a, by rw [hl]; rfl⟩
    · next hv6 =>
        split
        · have hmem := mem_of_containIPv6Addr (by simpa using hv6)
          exact ⟨_, by rw [sliceToLast, if_pos hmem]; rfl⟩
        · exact ⟨_, rfl⟩
  obtain ⟨h, hh⟩ := hchars
  exact ⟨String.ofList h, by rw [removePortFromHost, hh]; rfl⟩

/-- `genContext` sets the destination host exactly when some strategy routes by
destination host. -/
theorem genContext_spec {reqHost host : String} (h : removePortFromHost reqHost = some host) :
    ∀ strategies : List ProxyStrategy,
      genContext reqHost strategies =
        .ok (if .destHost ∈ strategies then some host else none) := by
  intro strategies
  induction strategies with
  | nil => simp [genContext]
  | cons ps rest ih =>
      cases ps with
      | default =>
          rw [genContext, ih]
          · simp
          · simp
      | defaultRoute =>
          rw [genContext, ih]
          · simp
          · simp
      | destHost =>
          rw [genContext, h, ih]
          simp only [bind, Except.bind, pure, Except.pure, List.mem_cons, true_or, if_true]
          split <;> rfl

/-! ## One manager -/

/-- What `Backend` of this manager can choose from: any registered agent, or
for destination hosts the backends filed under a host that is not empty. -/
def BackendManager.hasCandidate (m : BackendManager) (host : String) : Prop :=
  match m.strategy with
  | .default | .defaultRoute => ∃ k, m.storage.registered k ≠ []
  | .destHost => host ≠ "" ∧ m.storage.registered host ≠ []

/-- The outcome of one manager's `Backend`. -/
def ManagerPick (env : SelectEnv) (draining : BackendId → Bool) (m : BackendManager)
    (host : String) (lo hi : Nat) : Option Pick → Prop
  | none => ¬ m.hasCandidate host
  | some p =>
      m.hasCandidate host ∧
        match m.strategy with
        | .default | .defaultRoute => RandomPick env draining m.storage.registered lo hi (some p)
        | .destHost => ∃ b, p = .destHost b ∧
            DestHostPick env draining (m.storage.registered host) lo hi b

/-- What a manager carries from one call to the next. -/
structure ManagerInv (draining : BackendId → Bool) (m : BackendManager) : Prop where
  kind : (newBackendManager m.strategy).storage.sameKind m.storage
  storage : StorageInv draining m.storage

structure BackendSpec (env : SelectEnv) (draining : BackendId → Bool) (m : BackendManager)
    (host : String) (c : Cursor) (r : BackendManager × Cursor × Option Pick) : Prop where
  strategy : r.1.strategy = m.strategy
  inv : ManagerInv (env.flags draining r.2.1.reads) r.1
  registered : ∀ k, r.1.storage.registered k = m.storage.registered k
  reads : c.reads ≤ r.2.1.reads
  pick : ManagerPick env draining m host c.reads r.2.1.reads r.2.2

theorem ManagerInv.mono {d d' : BackendId → Bool} {m : BackendManager} (h : ManagerInv d m)
    (hmono : ∀ b, d b = true → d' b = true) : ManagerInv d' m :=
  ⟨h.kind, h.storage.mono hmono⟩

theorem RandomPick.hasCandidate {env : SelectEnv} {draining : BackendId → Bool}
    {reg : String → List BackendId} {lo hi : Nat} {p : Pick}
    (h : RandomPick env draining reg lo hi (some p)) : ∃ k, reg k ≠ [] := by
  have hne : ∀ {k b}, (reg k).head? = some b → reg k ≠ [] := by
    intro k b hb hz
    rw [hz] at hb
    cases hb
  cases p with
  | sole b =>
      obtain ⟨⟨k, hk⟩, -⟩ := h
      exact ⟨k, hne hk⟩
  | preferred first second selected =>
      obtain ⟨⟨k, _, -, hk, -⟩, -⟩ := h
      exact ⟨k, hne hk⟩
  | fallback b =>
      obtain ⟨⟨k, hk⟩, -⟩ := h
      exact ⟨k, hne hk⟩
  | destHost b => exact h.elim

theorem BackendManager.backend_spec {env : SelectEnv} {draining : BackendId → Bool}
    {m : BackendManager} {c : Cursor} {ctx : Option String} {host : String}
    (h : ManagerInv (env.flags draining c.reads) m)
    (hctx : m.strategy = .destHost → ctx = some host) :
    ∃ r, m.backend env draining ctx c = .ok r ∧ BackendSpec env draining m host c r := by
  have random : m.strategy ≠ .destHost →
      ∃ r, m.storage.getRandomBackend env draining c = .ok r ∧
        BackendSpec env draining m host c (⟨m.strategy, r.1⟩, r.2.1, r.2.2) := by
    intro hs
    have hm : m.storage.maintainRandomRoutingIndex = true := by
      rw [h.kind.1]
      cases hstr : m.strategy <;> simp_all [newBackendManager, newDefaultBackendStorage]
    obtain ⟨r, hr, spec⟩ := BackendStorage.getRandomBackend_spec h.storage hm
    have hcand : m.hasCandidate host ↔ ∃ k, m.storage.registered k ≠ [] := by
      unfold BackendManager.hasCandidate
      cases hstr : m.strategy <;> simp_all
    refine ⟨r, hr, rfl, ⟨?_, spec.inv⟩, spec.registered, spec.reads, ?_⟩
    · exact ⟨spec.kind.1.trans h.kind.1, spec.kind.2.trans h.kind.2⟩
    · have hp := spec.pick
      cases hpick : r.2.2 with
      | none =>
          rw [hpick] at hp
          rw [ManagerPick, hcand]
          exact fun ⟨k, hk⟩ => hk (hp k)
      | some p =>
          rw [hpick] at hp
          refine ⟨hcand.mpr hp.hasCandidate, ?_⟩
          cases hstr : m.strategy <;> simp_all
  unfold BackendManager.backend
  cases hs : m.strategy with
  | default =>
      obtain ⟨r, hr, spec⟩ := random (by rw [hs]; simp)
      exact ⟨_, by simp only [hr, bind, Except.bind, pure, Except.pure, ← hs], spec⟩
  | defaultRoute =>
      obtain ⟨r, hr, spec⟩ := random (by rw [hs]; simp)
      exact ⟨_, by simp only [hr, bind, Except.bind, pure, Except.pure, ← hs], spec⟩
  | destHost =>
      obtain ⟨c', pick, hr, hle, hnone, hsome⟩ :=
        @BackendStorage.destHostBackend_spec env draining m.storage h.storage.nonempty host c
      refine ⟨(m, c', pick), ?_, rfl, ?_, fun _ => rfl, hle, ?_⟩
      · rw [hctx hs]
        simp only [hr, bind, Except.bind, pure, Except.pure, ← hs]
      · exact h.mono fun _ => SelectEnv.flags_mono hle
      · cases pick with
        | none =>
            simp only [ManagerPick, BackendManager.hasCandidate, hs]
            rcases hnone rfl with hz | hz <;> simp [hz]
        | some p =>
            obtain ⟨hhost, b, rfl, hpick⟩ := hsome p rfl
            refine ⟨?_, ?_⟩
            · simp only [BackendManager.hasCandidate, hs]
              refine ⟨hhost, fun hz => ?_⟩
              rw [hz] at hpick
              rcases hpick with ⟨pre, post, hsplit, -⟩ | ⟨hhead, -⟩
              · simp at hsplit
              · cases hhead
            · simp only [hs]
              exact ⟨b, rfl, hpick⟩

/-! ## The chain of managers -/

theorem ManagerPick.widen {env : SelectEnv} {draining : BackendId → Bool} {m : BackendManager}
    {host : String} {lo lo' hi : Nat} {pick : Option Pick} (hle : lo ≤ lo')
    (h : ManagerPick env draining m host lo' hi pick) :
    ManagerPick env draining m host lo hi pick := by
  cases pick with
  | none => exact h
  | some p =>
      refine ⟨h.1, ?_⟩
      have h2 := h.2
      cases hs : m.strategy with
      | default => simp only [hs] at h2 ⊢; exact h2.widen hle
      | defaultRoute => simp only [hs] at h2 ⊢; exact h2.widen hle
      | destHost =>
          simp only [hs] at h2 ⊢
          obtain ⟨b, rfl, hp⟩ := h2
          refine ⟨b, rfl, ?_⟩
          have wide : ∀ x, observedDraining env draining lo' hi x →
              observedDraining env draining lo hi x := by
            rintro x ⟨r, h1, h2, h3⟩
            exact ⟨r, by omega, h2, h3⟩
          rcases hp with ⟨pre, post, hsplit, hpre, hobs⟩ | ⟨hhead, hall⟩
          · exact Or.inl ⟨pre, post, hsplit, fun x hx => wide x (hpre x hx), hobs.widen hle⟩
          · exact Or.inr ⟨hhead, fun x hx => wide x (hall x hx)⟩

/-- The loop of `getBackend` faults nowhere, and answers for the first manager
that has a candidate. -/
theorem getBackendLoop_spec {env : SelectEnv} {draining : BackendId → Bool}
    {ctx : Option String} {host : String} :
    ∀ {managers : List BackendManager} {c : Cursor},
    (∀ m ∈ managers, ManagerInv (env.flags draining c.reads) m ∧
      (m.strategy = .destHost → ctx = some host)) →
    ∃ ms c' pick, getBackendLoop env draining ctx managers c = .ok (ms, c', pick) ∧
      c.reads ≤ c'.reads ∧
      ((pick = none ∧ ∀ m ∈ managers, ¬ m.hasCandidate host) ∨
        ∃ p pre m post, pick = some p ∧ managers = pre ++ m :: post ∧
          (∀ m' ∈ pre, ¬ m'.hasCandidate host) ∧
          ManagerPick env draining m host c.reads c'.reads (some p)) := by
  intro managers
  induction managers with
  | nil => intro c _; exact ⟨[], c, none, rfl, Nat.le_refl _, Or.inl ⟨rfl, by simp⟩⟩
  | cons m ms ih =>
      intro c h
      obtain ⟨hm, hctx⟩ := h m List.mem_cons_self
      obtain ⟨⟨m', c₁, pick⟩, hr, spec⟩ := BackendManager.backend_spec hm hctx
      have hreads := spec.reads
      have hpick := spec.pick
      simp only [getBackendLoop, hr, bind, Except.bind, pure, Except.pure]
      cases pick with
      | some p =>
          exact ⟨_, _, _, rfl, hreads, Or.inr ⟨p, [], m, ms, rfl, rfl, by simp, hpick⟩⟩
      | none =>
          obtain ⟨ms', c₂, pick, hloop, hle, hcase⟩ := ih (c := c₁) fun x hx =>
            ⟨(h x (List.mem_cons_of_mem _ hx)).1.mono fun _ => SelectEnv.flags_mono hreads,
              (h x (List.mem_cons_of_mem _ hx)).2⟩
          simp only [hloop]
          refine ⟨_, _, _, rfl, Nat.le_trans hreads hle, ?_⟩
          rcases hcase with ⟨rfl, hnone⟩ | ⟨p, pre, m₁, post, rfl, rfl, hpre, hp⟩
          · exact Or.inl ⟨rfl, List.forall_mem_cons.mpr ⟨hpick, hnone⟩⟩
          · exact Or.inr ⟨p, m :: pre, m₁, post, rfl, rfl,
              List.forall_mem_cons.mpr ⟨hpick, hpre⟩, hp.widen hreads⟩

end Konnectivity
