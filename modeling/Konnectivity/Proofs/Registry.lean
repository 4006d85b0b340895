import Konnectivity.Storage.Registry
import Konnectivity.Proofs.Selection

/-!
# The storage refines the set of connected agents

What the managers are for can be said without lists or indices: a backend is
filed under an identifier of a manager from the moment it is added for it
until it is removed again. `addedAt` reads that off the history, together
with the moment. The refinement says that the code's lists are exactly this
relation, in the order of the moments, however the walks of different
backends interleave; and where no walk is half done, the relation itself is
"added, and advertises the identifier".

The proof splits along what a step can touch. `ManagersInv` relates the
storages, the flags and the history; `PhaseInv` relates the history and how
far each backend's own walk has got. A walk never overlaps another walk of
the same backend, so the second only ever moves one way.
-/

namespace Konnectivity

open Lib

/-! ## The history -/

/-- When the backend was filed under the identifier, if it still is. The
moment is the length of the history before the event. -/
def addedAt (i : Nat) (k : String) (b : BackendId) : List RegEvent → Option Nat
  | [] => none
  | .add i' k' b' :: log =>
      if i' = i ∧ k' = k ∧ b' = b then (addedAt i k b log).or (some log.length)
      else addedAt i k b log
  | .remove i' k' b' :: log =>
      if i' = i ∧ k' = k ∧ b' = b then none else addedAt i k b log

theorem addedAt_lt {i : Nat} {k : String} {b : BackendId} {log : List RegEvent} {t : Nat}
    (h : addedAt i k b log = some t) : t < log.length := by
  induction log with
  | nil => cases h
  | cons e log ih =>
      have hlen : (e :: log).length = log.length + 1 := rfl
      cases e with
      | add i' k' b' =>
          rw [addedAt] at h
          split at h
          · cases hold : addedAt i k b log with
            | none =>
                rw [hold] at h
                injection h with h
                omega
            | some t' =>
                rw [hold] at h
                injection h with h
                have := ih (h ▸ hold)
                omega
          · have := ih h
            omega
      | remove i' k' b' =>
          rw [addedAt] at h
          split at h
          · cases h
          · have := ih h
            omega

/-! ## The invariants -/

/-- The storages describe the history. -/
structure ManagersInv (strategies : List ProxyStrategy) (managers : List BackendManager)
    (draining : BackendId → Bool) (log : List RegEvent) : Prop where
  strategy : managers.map (·.strategy) = strategies
  kind : ∀ (i : Nat) (m : BackendManager), managers[i]? = some m →
    (newBackendManager m.strategy).storage.sameKind m.storage
  storage : ∀ (i : Nat) (m : BackendManager), managers[i]? = some m → StorageInv draining m.storage
  filed : ∀ (i : Nat) (m : BackendManager) (k : String) (b : BackendId), managers[i]? = some m →
    (b ∈ m.storage.registered k ↔ (addedAt i k b log).isSome)
  order : ∀ (i : Nat) (m : BackendManager) (k : String), managers[i]? = some m →
    (m.storage.registered k).Pairwise fun b b' =>
      ∃ t t', addedAt i k b log = some t ∧ addedAt i k b' log = some t' ∧ t < t'

/-- The backend's own walk, as far as it has got, accounts for the history. -/
def PhaseInv (steps : List MicroStep) (log : List RegEvent) (b : BackendId) : Phase → Prop
  | .absent => ∀ i k, addedAt i k b log = none
  | .added => ∀ i k, (addedAt i k b log).isSome ↔ ∃ t, (⟨i, k, t⟩ : MicroStep) ∈ steps
  | .adding rest =>
      (∀ st ∈ rest, st ∈ steps) ∧
        (∀ st ∈ steps, st ∈ rest ∨ (addedAt st.manager st.identifier b log).isSome) ∧
        ∀ i k, (addedAt i k b log).isSome → ∃ t, (⟨i, k, t⟩ : MicroStep) ∈ steps
  | .removing rest =>
      (∀ st ∈ rest, st ∈ steps) ∧
        ∀ i k, (addedAt i k b log).isSome → ∃ t, (⟨i, k, t⟩ : MicroStep) ∈ rest

structure RegInv (strategies : List ProxyStrategy) (info : BackendId → BackendInfo)
    (s : Registry) : Prop where
  alive : s.panicked = false
  managers : ManagersInv strategies s.managers s.draining s.log
  phase : ∀ b, PhaseInv (microSteps strategies (info b)) s.log b (s.phase b)

/-! ## The steps of a walk -/

theorem mem_microSteps {strategies : List ProxyStrategy} {info : BackendInfo} {st : MicroStep} :
    st ∈ microSteps strategies info ↔
      ∃ ps, strategies[st.manager]? = some ps ∧
      (st.identifier, st.idType) ∈ advertised ps info := by
  unfold microSteps
  rw [List.mem_flatMap]
  constructor
  · rintro ⟨⟨ps, i⟩, hzip, hst⟩
    obtain ⟨⟨k, t⟩, hkt, rfl⟩ := List.mem_map.mp hst
    exact ⟨ps, List.mem_zipIdx_iff_getElem?.mp hzip, hkt⟩
  · rintro ⟨ps, hps, hadv⟩
    exact ⟨(ps, st.manager), List.mem_zipIdx_iff_getElem?.mpr hps,
      List.mem_map.mpr ⟨(st.identifier, st.idType), hadv, rfl⟩⟩

/-- A manager accepts the identifier types it is given. -/
theorem advertised_idType {ps : ProxyStrategy} {info : BackendInfo} {k : String}
    {t : IdentifierType} (h : (k, t) ∈ advertised ps info) :
    t ∈ (newBackendManager ps).storage.idTypes := by
  cases ps with
  | default =>
      simp only [advertised, List.mem_singleton, Prod.mk.injEq] at h
      rw [h.2]
      simp [newBackendManager, newDefaultBackendStorage]
  | defaultRoute =>
      simp only [advertised] at h
      split at h
      · simp only [List.mem_singleton, Prod.mk.injEq] at h
        rw [h.2]
        simp [newBackendManager, newDefaultBackendStorage]
      · cases h
  | destHost =>
      simp only [advertised, List.mem_append, List.mem_map, Prod.mk.injEq] at h
      rcases h with (⟨_, _, _, rfl⟩ | ⟨_, _, _, rfl⟩) | ⟨_, _, _, rfl⟩ <;>
        simp [newBackendManager, newDefaultBackendStorage]

theorem ManagersInv.strategy_at {strategies : List ProxyStrategy}
    {managers : List BackendManager} {draining : BackendId → Bool} {log : List RegEvent}
    (h : ManagersInv strategies managers draining log) {i : Nat} {m : BackendManager}
    (hm : managers[i]? = some m) : strategies[i]? = some m.strategy := by
  rw [← h.strategy, List.getElem?_map, hm]
  rfl

/-- Replacing the storage of manager `i`. -/
theorem setStorage_get {s : Registry} {i j : Nat} {st : BackendStorage} {m : BackendManager} :
    (s.setStorage i st).managers[j]? = some m ↔
      (j ≠ i ∧ s.managers[j]? = some m) ∨
        (j = i ∧ ∃ m₀, s.managers[i]? = some m₀ ∧ m = { m₀ with storage := st }) := by
  unfold Registry.setStorage
  rw [List.getElem?_modify]
  by_cases hj : i = j
  · subst hj
    cases hm : s.managers[i]? with
    | none => simp
    | some m₀ => simp [eq_comm]
  · have hj' : j ≠ i := fun h => hj h.symm
    simp [hj, hj']

theorem setStorage_strategy (s : Registry) (i : Nat) (st : BackendStorage) :
    (s.setStorage i st).managers.map (·.strategy) = s.managers.map (·.strategy) := by
  unfold Registry.setStorage
  refine List.ext_getElem? fun j => ?_
  rw [List.getElem?_map, List.getElem?_map, List.getElem?_modify]
  by_cases hj : i = j
  · subst hj
    cases s.managers[i]? <;> simp
  · simp [hj]

/-- One storage moves, and the history with it: the whole invariant reduces to
that storage and to how its lists and the moments of its backends changed. -/
theorem ManagersInv.update {strategies : List ProxyStrategy} {s : Registry}
    {draining' : BackendId → Bool} {log' : List RegEvent}
    (h : ManagersInv strategies s.managers s.draining s.log) {i : Nat} {m : BackendManager}
    {st : BackendStorage} (hm : s.managers[i]? = some m)
    (hmono : ∀ b, s.draining b = true → draining' b = true)
    (hkind : m.storage.sameKind st) (hinv : StorageInv draining' st)
    (hother : ∀ j k b, j ≠ i → addedAt j k b log' = addedAt j k b s.log)
    (hfiled : ∀ k b, b ∈ st.registered k ↔ (addedAt i k b log').isSome)
    (horder : ∀ k, (st.registered k).Pairwise fun b b' =>
      ∃ t t', addedAt i k b log' = some t ∧ addedAt i k b' log' = some t' ∧ t < t') :
    ManagersInv strategies (s.setStorage i st).managers draining' log' := by
  refine ⟨?_, ?_, ?_, ?_, ?_⟩
  · rw [setStorage_strategy, h.strategy]
  · intro j m' hj
    rcases setStorage_get.mp hj with ⟨_, hj⟩ | ⟨rfl, m₀, hm₀, rfl⟩
    · exact h.kind j m' hj
    · rw [hm] at hm₀
      injection hm₀ with hm₀
      subst hm₀
      have hk := h.kind j m hm
      exact ⟨hkind.1.trans hk.1, hkind.2.trans hk.2⟩
  · intro j m' hj
    rcases setStorage_get.mp hj with ⟨_, hj⟩ | ⟨rfl, m₀, _, rfl⟩
    · exact (h.storage j m' hj).mono hmono
    · exact hinv
  · intro j m' k b hj
    rcases setStorage_get.mp hj with ⟨hne, hj⟩ | ⟨rfl, m₀, _, rfl⟩
    · rw [hother j k b hne]
      exact h.filed j m' k b hj
    · exact hfiled k b
  · intro j m' k hj
    rcases setStorage_get.mp hj with ⟨hne, hj⟩ | ⟨rfl, m₀, _, rfl⟩
    · refine (h.order j m' k hj).imp fun {b b'} ⟨t, t', ht, ht', hlt⟩ => ?_
      exact ⟨t, t', by rw [hother j k b hne, ht], by rw [hother j k b' hne, ht'], hlt⟩
    · exact horder k

/-- A step that keeps every list, and only repairs an index or sets flags. -/
theorem ManagersInv.reindex {strategies : List ProxyStrategy} {s : Registry}
    {draining' : BackendId → Bool}
    (h : ManagersInv strategies s.managers s.draining s.log) {i : Nat} {m : BackendManager}
    {st : BackendStorage} (hm : s.managers[i]? = some m)
    (hmono : ∀ b, s.draining b = true → draining' b = true)
    (hkind : m.storage.sameKind st) (hinv : StorageInv draining' st)
    (hreg : ∀ k, st.registered k = m.storage.registered k) :
    ManagersInv strategies (s.setStorage i st).managers draining' s.log :=
  h.update hm hmono hkind hinv (fun _ _ _ _ => rfl)
    (fun k b => by rw [hreg]; exact h.filed i m k b hm)
    (fun k => by rw [hreg]; exact h.order i m k hm)

theorem ManagersInv.setFlags {strategies : List ProxyStrategy} {managers : List BackendManager}
    {draining draining' : BackendId → Bool} {log : List RegEvent}
    (h : ManagersInv strategies managers draining log)
    (hmono : ∀ b, draining b = true → draining' b = true) :
    ManagersInv strategies managers draining' log :=
  { h with storage := fun i m hm => (h.storage i m hm).mono hmono }

/-! ## One locked section -/

theorem addedAt_add_other {i j : Nat} {k k' : String} {b b' : BackendId} {log : List RegEvent}
    (h : ¬ (i = j ∧ k = k' ∧ b = b')) :
    addedAt j k' b' (.add i k b :: log) = addedAt j k' b' log := by
  rw [addedAt, if_neg h]

theorem addedAt_add_self (i : Nat) (k : String) (b : BackendId) (log : List RegEvent) :
    addedAt i k b (.add i k b :: log) = (addedAt i k b log).or (some log.length) := by
  rw [addedAt, if_pos ⟨rfl, rfl, rfl⟩]

theorem addedAt_remove_other {i j : Nat} {k k' : String} {b b' : BackendId}
    {log : List RegEvent} (h : ¬ (i = j ∧ k = k' ∧ b = b')) :
    addedAt j k' b' (.remove i k b :: log) = addedAt j k' b' log := by
  rw [addedAt, if_neg h]

theorem addedAt_remove_self (i : Nat) (k : String) (b : BackendId) (log : List RegEvent) :
    addedAt i k b (.remove i k b :: log) = none := by
  rw [addedAt, if_pos ⟨rfl, rfl, rfl⟩]

/-- A moment once recorded is not moved by a later addition. -/
theorem addedAt_add_of_some {i j : Nat} {k k' : String} {b b' : BackendId}
    {log : List RegEvent} {t : Nat} (h : addedAt j k' b' log = some t) :
    addedAt j k' b' (.add i k b :: log) = some t := by
  rw [addedAt, h]
  split <;> rfl

theorem ManagersInv.addStep {strategies : List ProxyStrategy} {s : Registry}
    (h : ManagersInv strategies s.managers s.draining s.log) {i : Nat} {m : BackendManager}
    {k : String} {t : IdentifierType} {b : BackendId} (hm : s.managers[i]? = some m)
    (ht : t ∈ m.storage.idTypes) :
    ManagersInv strategies
      (s.setStorage i (m.storage.addBackend s.draining k t b)).managers s.draining
      (.add i k b :: s.log) := by
  have hreg := BackendStorage.add_registered (s := m.storage) s.draining ht k b
  have hold := h.order i m
  refine h.update hm (fun _ hb => hb) (BackendStorage.add_sameKind ..)
    (BackendStorage.add_inv (h.storage i m hm) k t b) ?_ ?_ ?_
  · intro j k' b' hj
    exact addedAt_add_other fun hc => hj hc.1.symm
  · intro k' b'
    by_cases hkb : k = k' ∧ b = b'
    · obtain ⟨rfl, rfl⟩ := hkb
      rw [hreg, addedAt_add_self]
      by_cases hb : b ∈ m.storage.registered k
      · obtain ⟨t, ht⟩ := Option.isSome_iff_exists.mp ((h.filed i m k b hm).mp hb)
        rw [if_neg (by simp [hb]), ht]
        simp [hb]
      · cases addedAt i k b s.log <;> simp [hb]
    · rw [addedAt_add_other (by tauto), ← h.filed i m k' b' hm, hreg]
      split
      · next hc =>
          obtain ⟨rfl, -⟩ := hc
          have hbb : b' ≠ b := fun hbb => hkb ⟨rfl, hbb.symm⟩
          simp [hbb]
      · rfl
  · intro k'
    have keep : (m.storage.registered k').Pairwise fun x y => ∃ t t',
        addedAt i k' x (.add i k b :: s.log) = some t ∧
          addedAt i k' y (.add i k b :: s.log) = some t' ∧ t < t' :=
      (hold k' hm).imp fun ⟨t, t', ht, ht', hlt⟩ =>
        ⟨t, t', addedAt_add_of_some ht, addedAt_add_of_some ht', hlt⟩
    rw [hreg]
    split
    · next hc =>
        obtain ⟨rfl, hb⟩ := hc
        refine List.pairwise_append.mpr ⟨keep, List.pairwise_singleton _ _, ?_⟩
        intro x hx y hy
        rw [List.mem_singleton] at hy
        subst hy
        -- The newcomer's moment is the length of the history, later than all others.
        obtain ⟨t, ht⟩ := Option.isSome_iff_exists.mp ((h.filed i m k' x hm).mp hx)
        have hnone : addedAt i k' y s.log = none := by
          rw [← Option.not_isSome_iff_eq_none, ← h.filed i m k' y hm]
          exact hb
        refine ⟨t, s.log.length, addedAt_add_of_some ht, ?_, addedAt_lt ht⟩
        rw [addedAt_add_self, hnone]
        rfl
    · exact keep

theorem ManagersInv.removeStep {strategies : List ProxyStrategy} {s : Registry}
    (h : ManagersInv strategies s.managers s.draining s.log) {i : Nat} {m : BackendManager}
    {k : String} {t : IdentifierType} {b : BackendId} (hm : s.managers[i]? = some m)
    (ht : t ∈ m.storage.idTypes) :
    ∃ st, m.storage.removeBackend s.draining k t b = some st ∧
      ManagersInv strategies (s.setStorage i st).managers s.draining
        (.remove i k b :: s.log) := by
  have hst := h.storage i m hm
  obtain ⟨st, hrm, hinv, hkind, hreg⟩ := BackendStorage.remove_spec hst ht k b
  refine ⟨st, hrm, h.update hm (fun _ hb => hb) hkind hinv ?_ ?_ ?_⟩
  · intro j k' b' hj
    exact addedAt_remove_other fun hc => hj hc.1.symm
  · intro k' b'
    rw [hreg]
    by_cases hkb : k = k' ∧ b = b'
    · obtain ⟨rfl, rfl⟩ := hkb
      rw [addedAt_remove_self, if_pos rfl]
      simp [(hst.nodup k).mem_erase_iff]
    · rw [addedAt_remove_other (by tauto), ← h.filed i m k' b' hm]
      split
      · next hk =>
          subst hk
          have hbb : b' ≠ b := fun hbb => hkb ⟨rfl, hbb.symm⟩
          exact List.mem_erase_of_ne hbb
      · rfl
  · intro k'
    rw [hreg]
    split
    · next hk =>
        subst hk
        -- The entries left in the list are others than the removed one.
        have hsub := (h.order i m k' hm).sublist (List.erase_sublist (a := b))
        refine hsub.imp_of_mem fun {x y} hx hy hxy => ?_
        obtain ⟨t, t', ht, ht', hlt⟩ := hxy
        have hxb := ((hst.nodup k').mem_erase_iff.mp hx).1
        have hyb := ((hst.nodup k').mem_erase_iff.mp hy).1
        refine ⟨t, t', ?_, ?_, hlt⟩
        · rw [addedAt_remove_other (by tauto), ht]
        · rw [addedAt_remove_other (by tauto), ht']
    · next hk =>
        refine (h.order i m k' hm).imp fun {x y} ⟨t, t', ht, ht', hlt⟩ => ?_
        refine ⟨t, t', ?_, ?_, hlt⟩
        · rw [addedAt_remove_other (by tauto), ht]
        · rw [addedAt_remove_other (by tauto), ht']

theorem ManagersInv.managerInv {strategies : List ProxyStrategy}
    {managers : List BackendManager} {draining : BackendId → Bool} {log : List RegEvent}
    (h : ManagersInv strategies managers draining log) {i : Nat} {m : BackendManager}
    (hm : managers[i]? = some m) : ManagerInv draining m :=
  ⟨h.kind i m hm, h.storage i m hm⟩

/-- `genContext` leaves a destination host for every manager that asks for one. -/
theorem ManagersInv.context {strategies : List ProxyStrategy} {managers : List BackendManager}
    {draining : BackendId → Bool} {log : List RegEvent}
    (h : ManagersInv strategies managers draining log) {reqHost host : String}
    (hhost : removePortFromHost reqHost = some host) :
    ∃ ctx, genContext reqHost strategies = .ok ctx ∧
      ∀ m ∈ managers, m.strategy = .destHost → ctx = some host := by
  refine ⟨_, genContext_spec hhost strategies, fun m hm hs => ?_⟩
  have hmem : ProxyStrategy.destHost ∈ strategies := by
    rw [← h.strategy, ← hs]
    exact List.mem_map_of_mem hm
  rw [if_pos hmem]

/-! ## The backend's own walk -/

theorem PhaseInv.congr {steps : List MicroStep} {log log' : List RegEvent} {b : BackendId}
    (hlog : ∀ i k, addedAt i k b log' = addedAt i k b log) {p : Phase}
    (h : PhaseInv steps log b p) : PhaseInv steps log' b p := by
  cases p <;> simpa only [PhaseInv, hlog] using h

theorem PhaseInv.startAdd {steps : List MicroStep} {log : List RegEvent} {b : BackendId}
    {p : Phase} (h : PhaseInv steps log b p) (hp : p = .absent ∨ p = .added) :
    PhaseInv steps log b (.adding steps) := by
  refine ⟨fun _ hst => hst, fun _ hst => Or.inl hst, fun i k hs => ?_⟩
  rcases hp with rfl | rfl
  · rw [h i k] at hs
    cases hs
  · exact (h i k).mp hs

theorem PhaseInv.startRemove {steps : List MicroStep} {log : List RegEvent} {b : BackendId}
    {p : Phase} (h : PhaseInv steps log b p) (hp : p = .absent ∨ p = .added) :
    PhaseInv steps log b (.removing steps) := by
  refine ⟨fun _ hst => hst, fun i k hs => ?_⟩
  rcases hp with rfl | rfl
  · rw [h i k] at hs
    cases hs
  · exact (h i k).mp hs

theorem PhaseInv.endAdd {steps : List MicroStep} {log : List RegEvent} {b : BackendId}
    (h : PhaseInv steps log b (.adding [])) : PhaseInv steps log b .added := by
  obtain ⟨-, hdone, hsound⟩ := h
  intro i k
  refine ⟨hsound i k, ?_⟩
  rintro ⟨t, ht⟩
  exact (hdone _ ht).resolve_left List.not_mem_nil

theorem PhaseInv.endRemove {steps : List MicroStep} {log : List RegEvent} {b : BackendId}
    (h : PhaseInv steps log b (.removing [])) : PhaseInv steps log b .absent := by
  intro i k
  refine Option.not_isSome_iff_eq_none.mp fun hs => ?_
  obtain ⟨t, ht⟩ := h.2 i k hs
  exact List.not_mem_nil ht

theorem PhaseInv.addOne {steps rest : List MicroStep} {log : List RegEvent} {b : BackendId}
    {st : MicroStep} (h : PhaseInv steps log b (.adding (st :: rest))) :
    PhaseInv steps (.add st.manager st.identifier b :: log) b (.adding rest) := by
  obtain ⟨hin, hdone, hsound⟩ := h
  refine ⟨fun x hx => hin x (List.mem_cons_of_mem _ hx), fun x hx => ?_, fun i k hs => ?_⟩
  · rcases hdone x hx with hx | hx
    · rcases List.mem_cons.mp hx with rfl | hx
      · refine Or.inr ?_
        rw [addedAt_add_self]
        cases addedAt x.manager x.identifier b log <;> rfl
      · exact Or.inl hx
    · obtain ⟨t, ht⟩ := Option.isSome_iff_exists.mp hx
      exact Or.inr (by rw [addedAt_add_of_some ht]; rfl)
  · by_cases hik : st.manager = i ∧ st.identifier = k
    · obtain ⟨rfl, rfl⟩ := hik
      exact ⟨st.idType, hin st List.mem_cons_self⟩
    · rw [addedAt_add_other (by tauto)] at hs
      exact hsound i k hs

theorem PhaseInv.removeOne {steps rest : List MicroStep} {log : List RegEvent} {b : BackendId}
    {st : MicroStep} (h : PhaseInv steps log b (.removing (st :: rest))) :
    PhaseInv steps (.remove st.manager st.identifier b :: log) b (.removing rest) := by
  obtain ⟨hin, hrest⟩ := h
  refine ⟨fun x hx => hin x (List.mem_cons_of_mem _ hx), fun i k hs => ?_⟩
  by_cases hik : st.manager = i ∧ st.identifier = k
  · obtain ⟨rfl, rfl⟩ := hik
    rw [addedAt_remove_self] at hs
    cases hs
  · rw [addedAt_remove_other (by tauto)] at hs
    obtain ⟨t, ht⟩ := hrest i k hs
    refine ⟨t, (List.mem_cons.mp ht).resolve_left fun heq => hik ?_⟩
    rw [← heq]
    exact ⟨rfl, rfl⟩

/-! ## Steps and runs -/

section Steps

variable {strategies : List ProxyStrategy} {info : BackendId → BackendInfo} {s s' : Registry}

theorem newBackendManager_inv (draining : BackendId → Bool) (ps : ProxyStrategy) :
    StorageInv draining (newBackendManager ps).storage := by
  have hreg : ∀ k, (newBackendManager ps).storage.registered k = [] := by
    intro k
    cases ps <;> rfl
  refine ⟨fun k => ?_, fun k => ?_, fun _ => ?_⟩
  · cases ps <;> exact fun h => nomatch h
  · rw [hreg]
    exact List.nodup_nil
  · refine ⟨?_, ?_, ?_, fun k => ?_, ?_⟩
    all_goals cases ps <;> simp [newBackendManager, newDefaultBackendStorage]
    all_goals exact hreg k

theorem RegInv.init : RegInv strategies info (newProxyServer strategies) := by
  have hget : ∀ (i : Nat) m, (newProxyServer strategies).managers[i]? = some m →
      ∃ ps, m = newBackendManager ps := by
    intro i m hm
    simp only [newProxyServer, List.getElem?_map, Option.map_eq_some_iff] at hm
    obtain ⟨ps, -, rfl⟩ := hm
    exact ⟨ps, rfl⟩
  have hnil : ∀ ps k, (newBackendManager ps).storage.registered k = [] := by
    intro ps k
    cases ps <;> rfl
  refine ⟨rfl, ⟨?_, ?_, ?_, ?_, ?_⟩, fun b i k => rfl⟩
  · have hstr : ∀ ps, (newBackendManager ps).strategy = ps := by intro ps; cases ps <;> rfl
    simp [newProxyServer, List.map_map, Function.comp_def, hstr]
  · intro i m hm
    obtain ⟨ps, rfl⟩ := hget i m hm
    cases ps <;> exact ⟨rfl, rfl⟩
  · intro i m hm
    obtain ⟨ps, rfl⟩ := hget i m hm
    exact newBackendManager_inv _ ps
  · intro i m k b hm
    obtain ⟨ps, rfl⟩ := hget i m hm
    rw [hnil]
    simp [newProxyServer, addedAt]
  · intro i m k hm
    obtain ⟨ps, rfl⟩ := hget i m hm
    rw [hnil]
    exact List.Pairwise.nil

/-- Moving one backend's phase, with a history in which the others are where
they were. -/
theorem RegInv.move (h : RegInv strategies info s) {b : BackendId} {p : Phase}
    (halive : s'.panicked = false)
    (hman : ManagersInv strategies s'.managers s'.draining s'.log)
    (hphase : s'.phase = Function.update s.phase b p)
    (hlog : ∀ b' i k, b' ≠ b → addedAt i k b' s'.log = addedAt i k b' s.log)
    (hp : PhaseInv (microSteps strategies (info b)) s'.log b p) : RegInv strategies info s' := by
  refine ⟨halive, hman, fun b' => ?_⟩
  by_cases hb : b' = b
  · subst hb
    rw [hphase, Function.update_self]
    exact hp
  · rw [hphase, Function.update_of_ne hb]
    exact (h.phase b').congr fun i k => hlog b' i k hb

/-- The steps of a walk name managers that exist and identifier types these
managers accept. -/
theorem RegInv.accepted (h : RegInv strategies info s) {b : BackendId} {st : MicroStep}
    (hst : st ∈ microSteps strategies (info b)) {m : BackendManager}
    (hm : s.managers[st.manager]? = some m) : st.idType ∈ m.storage.idTypes := by
  obtain ⟨ps, hps, hadv⟩ := mem_microSteps.mp hst
  rw [h.managers.strategy_at hm] at hps
  injection hps with hps
  rw [(h.managers.kind _ _ hm).2, hps]
  exact advertised_idType hadv

theorem RegInv.connectStep (h : RegInv strategies info s) {b : BackendId}
    (hstep : s.step strategies info (.connectStep b) = some s') :
    RegInv strategies info s' := by
  have hphase := h.phase b
  simp only [Registry.step, h.alive, Bool.false_eq_true, if_false] at hstep
  split at hstep
  · next hp =>
      rw [hp] at hphase
      injection hstep with hstep
      subst hstep
      exact h.move h.alive h.managers rfl (fun _ _ _ _ => rfl) hphase.endAdd
  · next st rest hp =>
      rw [hp] at hphase
      simp only [Registry.addStep, Registry.setPhase] at hstep
      split at hstep
      · cases hstep
      · next m hm =>
          injection hstep with hstep
          subst hstep
          refine h.move h.alive ?_ rfl ?_ hphase.addOne
          · exact h.managers.addStep hm (h.accepted (hphase.1 st List.mem_cons_self) hm)
          · intro b' i k hb
            exact addedAt_add_other fun hc => hb hc.2.2.symm
  · next hp =>
      rw [hp] at hphase
      injection hstep with hstep
      subst hstep
      exact h.move h.alive h.managers rfl (fun _ _ _ _ => rfl) hphase.endRemove
  · next st rest hp =>
      rw [hp] at hphase
      simp only [Registry.removeStep, Registry.setPhase] at hstep
      split at hstep
      · cases hstep
      · next m hm =>
          obtain ⟨storage, hrm, hman⟩ := h.managers.removeStep (k := st.identifier) (b := b) hm
            (h.accepted (hphase.1 st List.mem_cons_self) hm)
          rw [hrm] at hstep
          injection hstep with hstep
          subst hstep
          refine h.move h.alive hman rfl ?_ hphase.removeOne
          intro b' i k hb
          exact addedAt_remove_other fun hc => hb hc.2.2.symm
  · cases hstep

theorem RegInv.select (h : RegInv strategies info s) {i : Nat} {reqHost : String}
    {env : SelectEnv} (hstep : s.select strategies i reqHost env = some s') :
    RegInv strategies info s' := by
  obtain ⟨host, hhost⟩ := removePortFromHost_isSome reqHost
  obtain ⟨ctx, hctx, hdest⟩ := h.managers.context hhost
  simp only [Registry.select] at hstep
  split at hstep
  · cases hstep
  · next m hm =>
      obtain ⟨⟨m', c', pick⟩, hr, spec⟩ := @BackendManager.backend_spec env s.draining m {} ctx host
        ((h.managers.managerInv hm).mono fun _ => SelectEnv.flags_of_draining)
        (hdest m (List.mem_of_getElem? hm))
      simp only [hctx, hr] at hstep
      injection hstep with hstep
      subst hstep
      refine ⟨h.alive, ?_, h.phase⟩
      have hkind : m.storage.sameKind m'.storage := by
        have h1 := spec.inv.kind
        have h2 := h.managers.kind i m hm
        rw [spec.strategy] at h1
        exact ⟨h1.1.trans h2.1.symm, h1.2.trans h2.2.symm⟩
      exact h.managers.reindex hm
        (fun b hb => SelectEnv.flagsAfter_of_flags (k := 0) (SelectEnv.flags_of_draining hb))
        hkind (spec.inv.storage.mono fun _ => SelectEnv.flagsAfter_of_flags) spec.registered

theorem RegInv.step (h : RegInv strategies info s) {a : RegAction}
    (hstep : s.step strategies info a = some s') : RegInv strategies info s' := by
  have setTrue : ∀ (b b' : BackendId), s.draining b' = true →
      Function.update s.draining b true b' = true := by
    intro b b' hb
    by_cases hbb : b' = b
    · rw [hbb, Function.update_self]
    · rw [Function.update_of_ne hbb, hb]
  cases a with
  | connectStep b => exact h.connectStep hstep
  | addBackend b =>
      have hphase := h.phase b
      simp only [Registry.step, h.alive, Bool.false_eq_true, if_false] at hstep
      split at hstep
      · next hp =>
          injection hstep with hstep
          subst hstep
          exact h.move h.alive h.managers rfl (fun _ _ _ _ => rfl) (hphase.startAdd (.inl hp))
      · next hp =>
          injection hstep with hstep
          subst hstep
          exact h.move h.alive h.managers rfl (fun _ _ _ _ => rfl) (hphase.startAdd (.inr hp))
      · cases hstep
  | removeBackend b =>
      have hphase := h.phase b
      simp only [Registry.step, h.alive, Bool.false_eq_true, if_false] at hstep
      split at hstep
      · next hp =>
          injection hstep with hstep
          subst hstep
          exact h.move h.alive h.managers rfl (fun _ _ _ _ => rfl) (hphase.startRemove (.inl hp))
      · next hp =>
          injection hstep with hstep
          subst hstep
          exact h.move h.alive h.managers rfl (fun _ _ _ _ => rfl) (hphase.startRemove (.inr hp))
      · cases hstep
  | setDraining b =>
      simp only [Registry.step, h.alive, Bool.false_eq_true, if_false] at hstep
      injection hstep with hstep
      subst hstep
      exact ⟨rfl, h.managers.setFlags (setTrue b), h.phase⟩
  | markBackendDraining b =>
      simp only [Registry.step, h.alive, Bool.false_eq_true, if_false] at hstep
      injection hstep with hstep
      subst hstep
      exact ⟨rfl, h.managers.setFlags (setTrue b), h.phase⟩
  | markStep b =>
      simp only [Registry.step, h.alive, Bool.false_eq_true, if_false] at hstep
      split at hstep
      · cases hstep
      · next st rest hmarks =>
          simp only [Registry.markStep] at hstep
          split at hstep
          · cases hstep
          · next m hm =>
              injection hstep with hstep
              subst hstep
              refine ⟨rfl, ?_, h.phase⟩
              exact h.managers.reindex (m := m) hm (fun _ hb => hb)
                (BackendStorage.mark_sameKind ..)
                (BackendStorage.mark_inv (h.managers.storage _ _ hm) _ _ _)
                (fun _ => BackendStorage.mark_registered ..)
  | backend i reqHost env =>
      simp only [Registry.step, h.alive, Bool.false_eq_true, if_false] at hstep
      exact h.select hstep

theorem Registry.Reachable.inv (h : Registry.Reachable strategies info s) :
    RegInv strategies info s :=
  Reach.invariant (RegInv strategies info) RegInv.init (fun _ _ _ _ hi _ hs => hi.step hs) h

end Steps

/-! ## The refinement -/

/-- No `AddBackend` or `RemoveBackend` is half done. -/
def Registry.Settled (s : Registry) : Prop :=
  ∀ b, s.phase b = .absent ∨ s.phase b = .added

/-- What one manager's storage says when nothing is half done. -/
structure Registry.Refines (info : BackendId → BackendInfo) (s : Registry) (i : Nat)
    (m : BackendManager) : Prop where
  nodup : ∀ k, (m.storage.registered k).Nodup
  members : ∀ k b, b ∈ m.storage.registered k ↔
    s.phase b = .added ∧ ∃ t, (k, t) ∈ advertised m.strategy (info b)
  order : ∀ k, (m.storage.registered k).Pairwise fun b b' =>
    ∃ t t', addedAt i k b s.log = some t ∧ addedAt i k b' s.log = some t' ∧ t < t'
  nonempty : ∀ k, m.storage.backends.lookup k ≠ some []

/-- In every run of the managers no access is out of range; whenever no walk is
half done every storage is exactly the relation "added and advertises", in the
order of addition; and the routing index of the random managers splits the
registered identifiers at every moment. -/
theorem backends_refine_connected {strategies : List ProxyStrategy}
    {info : BackendId → BackendInfo} {s : Registry}
    (h : Registry.Reachable strategies info s) :
    s.panicked = false ∧ s.managers.map (·.strategy) = strategies ∧
      ∀ (i : Nat) (m : BackendManager), s.managers[i]? = some m →
        (s.Settled → s.Refines info i m) ∧
        (m.strategy ≠ .destHost → IndexInv s.draining m.storage) := by
  have hinv := h.inv
  refine ⟨hinv.alive, hinv.managers.strategy, fun i m hm => ⟨fun hq => ?_, fun hs => ?_⟩⟩
  · have hst := hinv.managers.storage i m hm
    refine ⟨hst.nodup, fun k b => ?_, fun k => hinv.managers.order i m k hm, hst.nonempty⟩
    have hphase := hinv.phase b
    rw [hinv.managers.filed i m k b hm]
    rcases hq b with hp | hp
    · rw [hp] at hphase ⊢
      simp [hphase i k]
    · rw [hp] at hphase ⊢
      rw [hphase i k]
      simp only [mem_microSteps, hinv.managers.strategy_at hm, Option.some.injEq,
        exists_eq_left', true_and]
  · refine (hinv.managers.storage i m hm).index ?_
    rw [(hinv.managers.kind i m hm).1]
    cases hstr : m.strategy <;> simp_all [newBackendManager, newDefaultBackendStorage]

/-- Two streams of one agent: the second is added while the first is half
added, the first retires and is removed again. -/
theorem backends_refine_connected_overlap :
    let strategies := [ProxyStrategy.default, .destHost]
    let info := fun _ : BackendId => ({ id := "a", idents := { host := ["h", "h"] } } : BackendInfo)
    ∃ s, Registry.Reachable strategies info s ∧ s.phase 0 = .absent ∧ s.phase 1 = .added ∧
      s.panicked = false ∧ s.managers.map (·.strategy) = strategies ∧
      ∀ (i : Nat) (m : BackendManager), s.managers[i]? = some m →
        (s.Settled → s.Refines info i m) ∧
        (m.strategy ≠ .destHost → IndexInv s.draining m.storage) := by
  intro strategies info
  let acts : List RegAction :=
    [.addBackend 0, .connectStep 0, .addBackend 1, .connectStep 1, .connectStep 0,
      .connectStep 1, .connectStep 1, .connectStep 0, .connectStep 0, .connectStep 1,
      .markBackendDraining 0, .markStep 0, .removeBackend 0, .connectStep 0, .connectStep 0,
      .connectStep 0, .connectStep 0]
  have hrun : ∃ s, run (Registry.step strategies info) (newProxyServer strategies) acts = some s ∧
      s.phase 0 = .absent ∧ s.phase 1 = .added := ⟨_, rfl, rfl, rfl⟩
  obtain ⟨s, hs, h0, h1⟩ := hrun
  have hreach : Registry.Reachable strategies info s := reach_of_run_any hs
  exact ⟨s, hreach, h0, h1, backends_refine_connected hreach⟩

end Konnectivity
