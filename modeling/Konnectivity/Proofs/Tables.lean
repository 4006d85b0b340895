import Konnectivity.Server.Tables

/-!
# Reading the tables after an operation

One lemma per operation and per way of looking at its result: what the
operation returned, and what a later read finds. The proofs about the server
use these and never unfold the tables.
-/

namespace Konnectivity

open Lib

/-! ## Pending dials -/

namespace PendingDialManager

variable {pm : PendingDialManager}

@[simp] theorem addInFlight_pendingDial (backend : Option BackendId) (delta : Int) :
    (pm.addInFlight backend delta).pendingDial = pm.pendingDial := by
  cases backend <;> rfl

theorem add_lookup (r r' : DialID) (p : ProxyClientConnection) :
    (pm.add r p).pendingDial.lookup r' =
      if r' = r then some p else pm.pendingDial.lookup r' := by
  unfold add
  rw [addInFlight_pendingDial]
  dsimp only
  rw [GoMap.lookup_insert_if]
  cases pm.pendingDial.lookup r with
  | none => rfl
  | some old => simp

theorem remove_fst (r : DialID) : (pm.remove r).1 = pm.pendingDial.lookup r := by
  unfold remove
  cases pm.pendingDial.lookup r <;> rfl

theorem remove_lookup (r r' : DialID) :
    (pm.remove r).2.pendingDial.lookup r' =
      if r' = r then none else pm.pendingDial.lookup r' := by
  unfold remove
  cases pm.pendingDial.lookup r with
  | none => exact GoMap.lookup_erase_if ..
  | some pd =>
      rw [addInFlight_pendingDial]
      exact GoMap.lookup_erase_if ..

theorem removeMatching_snd (test : ProxyClientConnection → Bool) :
    (pm.removeMatching test).2.pendingDial = (pm.pendingDial.removeWhere test).2 := by
  have hfold : ∀ (l : List ProxyClientConnection) (pm : PendingDialManager),
      (l.foldl (fun pm p => pm.addInFlight p.backend (-1)) pm).pendingDial =
        pm.pendingDial := by
    intro l
    induction l with
    | nil => intro pm; rfl
    | cons p l ih => intro pm; rw [List.foldl_cons, ih, addInFlight_pendingDial]
  unfold removeMatching
  exact hfold ..

theorem mem_removeMatching {test : ProxyClientConnection → Bool} {p : ProxyClientConnection} :
    p ∈ (pm.removeMatching test).1 ↔ ∃ r, pm.pendingDial.lookup r = some p ∧ test p = true := by
  have hfst : (pm.removeMatching test).1 = (pm.pendingDial.removeWhere test).1 := rfl
  rw [hfst]
  exact GoMap.mem_removeWhere

theorem removeForBackend_nodup {b : BackendId}
    (h : ∀ r p, pm.pendingDial.lookup r = some p → p.dialID = r) :
    ((pm.removeForBackend (some b)).1.map (·.dialID)).Nodup := by
  have hfst : (pm.removeForBackend (some b)).1 =
      (pm.pendingDial.removeWhere fun p => p.backend = some b).1 := rfl
  rw [hfst]
  exact GoMap.removeWhere_map_nodup h

theorem mem_removeForBackend {b : BackendId} {p : ProxyClientConnection} :
    p ∈ (pm.removeForBackend (some b)).1 ↔
      ∃ r, pm.pendingDial.lookup r = some p ∧ p.backend = some b := by
  unfold removeForBackend
  rw [mem_removeMatching]
  simp

theorem removeForBackend_lookup (b : BackendId) (r : DialID) :
    (pm.removeForBackend (some b)).2.pendingDial.lookup r =
      (pm.pendingDial.lookup r).filter fun p => !decide (p.backend = some b) := by
  unfold removeForBackend
  dsimp only
  rw [removeMatching_snd, GoMap.lookup_removeWhere]

theorem mem_removeForStream {u : StreamUID} (hu : u ≠ "") {p : ProxyClientConnection} :
    p ∈ (pm.removeForStream u).1 ↔
      ∃ r, pm.pendingDial.lookup r = some p ∧ p.ofStream u = true := by
  unfold removeForStream
  rw [if_neg hu, mem_removeMatching]

theorem removeForStream_lookup {u : StreamUID} (hu : u ≠ "") (r : DialID) :
    (pm.removeForStream u).2.pendingDial.lookup r =
      (pm.pendingDial.lookup r).filter fun p => !p.ofStream u := by
  unfold removeForStream
  rw [if_neg hu, removeMatching_snd, GoMap.lookup_removeWhere]

end PendingDialManager

/-! ## Established connections -/

namespace Established

variable {es : Established}

theorem put_lookup (a a' : AgentID) (conns : GoMap ConnectID ProxyClientConnection) :
    ((es.put a conns).lookup a').getD ∅ =
      if a' = a then conns else (es.lookup a').getD ∅ := by
  unfold put
  by_cases hz : conns.size = 0
  · rw [if_pos hz, GoMap.lookup_erase_if]
    split
    · have : conns = ∅ := AList.ext (List.length_eq_zero_iff.mp hz)
      rw [this]
      rfl
    · rfl
  · rw [if_neg hz, GoMap.lookup_insert_if]
    split <;> rfl

theorem getFrontend_eq (a : AgentID) (c : ConnectID) :
    es.getFrontend a c = ((es.lookup a).getD ∅).lookup c := by
  unfold getFrontend
  cases es.lookup a <;> rfl

theorem put_get (a a' : AgentID) (c : ConnectID)
    (conns : GoMap ConnectID ProxyClientConnection) :
    (es.put a conns).getFrontend a' c =
      if a' = a then conns.lookup c else es.getFrontend a' c := by
  rw [getFrontend_eq, getFrontend_eq, put_lookup]
  split <;> rfl

theorem add_get (a a' : AgentID) (c c' : ConnectID) (p : ProxyClientConnection) :
    (es.add a c p).getFrontend a' c' =
      if a' = a ∧ c' = c then some p else es.getFrontend a' c' := by
  rw [getFrontend_eq, getFrontend_eq]
  unfold add
  dsimp only
  rw [GoMap.lookup_insert_if]
  by_cases ha : a' = a
  · subst ha
    simp only [if_true, Option.getD_some, true_and]
    rw [GoMap.lookup_insert_if]
  · rw [if_neg ha, if_neg (by simp [ha])]

theorem remove_fst (a : AgentID) (c : ConnectID) : (es.remove a c).1 = es.getFrontend a c := by
  unfold remove getFrontend
  cases es.lookup a with
  | none => rfl
  | some conns =>
      dsimp only
      cases conns.lookup c <;> rfl

theorem remove_get (a a' : AgentID) (c c' : ConnectID) :
    (es.remove a c).2.getFrontend a' c' =
      if a' = a ∧ c' = c then none else es.getFrontend a' c' := by
  unfold remove
  cases ha : es.lookup a with
  | none =>
      dsimp only
      split
      · next hc => rw [hc.1, getFrontend, ha]
      · rfl
  | some conns =>
      dsimp only
      cases hc : conns.lookup c with
      | none =>
          dsimp only
          split
          · next h => rw [h.1, h.2, getFrontend, ha]; exact hc
          · rfl
      | some p =>
          dsimp only
          rw [put_get, GoMap.lookup_erase_if]
          by_cases haa : a' = a
          · subst haa
            simp only [if_true, true_and]
            split
            · rfl
            · rw [getFrontend, ha]
          · rw [if_neg haa, if_neg (by simp [haa])]

theorem removeForBackendConn_get (a a' : AgentID) (b : BackendId) (c : ConnectID) :
    (es.removeForBackendConn a b).2.getFrontend a' c =
      if a' = a then (es.getFrontend a' c).filter fun p => !decide (p.backend = some b)
      else es.getFrontend a' c := by
  unfold removeForBackendConn
  cases ha : es.lookup a with
  | none =>
      dsimp only
      split
      · next h => rw [h, getFrontend, ha]; rfl
      · rfl
  | some conns =>
      dsimp only
      rw [put_get]
      split
      · next h => rw [GoMap.lookup_removeWhere, h, getFrontend, ha]
      · rfl

theorem mem_removeForBackendConn {a : AgentID} {b : BackendId}
    {ret : List ProxyClientConnection} (h : (es.removeForBackendConn a b).1 = some ret)
    {p : ProxyClientConnection} :
    p ∈ ret ↔ ∃ c, es.getFrontend a c = some p ∧ p.backend = some b := by
  unfold removeForBackendConn at h
  cases ha : es.lookup a with
  | none =>
      rw [ha] at h
      cases h
  | some conns =>
      rw [ha] at h
      have hret : (conns.removeWhere fun p => p.backend = some b).1 = ret := Option.some.inj h
      rw [← hret, GoMap.mem_removeWhere]
      simp [getFrontend, ha]

/-- The loop over the agents leaves the entries of other streams and of agents
it does not visit. -/
theorem removeForStreamLoop_spec (u : StreamUID) : ∀ {agents : List AgentID} {es : Established},
    agents.Nodup →
    (∀ a c, (removeForStreamLoop u agents es).2.getFrontend a c =
      if a ∈ agents then (es.getFrontend a c).filter fun p => !p.ofStream u
      else es.getFrontend a c) ∧
    ∀ p, p ∈ (removeForStreamLoop u agents es).1 ↔
      ∃ a ∈ agents, ∃ c, es.getFrontend a c = some p ∧ p.ofStream u = true := by
  intro agents
  induction agents with
  | nil => intro es _; simp [removeForStreamLoop]
  | cons a agents ih =>
      intro es hnd
      obtain ⟨hna, hnd⟩ := List.nodup_cons.mp hnd
      rw [removeForStreamLoop]
      dsimp only
      obtain ⟨hget, hmem⟩ := @ih (es.put a
        (((es.lookup a).getD ∅).removeWhere fun p => p.ofStream u).2) hnd
      constructor
      · intro a' c
        rw [hget, put_get, GoMap.lookup_removeWhere, ← getFrontend_eq]
        by_cases haa : a' = a
        · subst haa
          simp [hna]
        · simp [haa]
      · intro p
        rw [List.mem_append, hmem, GoMap.mem_removeWhere]
        constructor
        · rintro (⟨c, hc, hu⟩ | ⟨a', ha', c, hc, hu⟩)
          · exact ⟨a, List.mem_cons_self, c, by rw [getFrontend_eq]; exact hc, hu⟩
          · have hne : a' ≠ a := fun h => hna (h ▸ ha')
            rw [put_get, if_neg hne] at hc
            exact ⟨a', List.mem_cons_of_mem _ ha', c, hc, hu⟩
        · rintro ⟨a', ha', c, hc, hu⟩
          rcases List.mem_cons.mp ha' with rfl | ha'
          · exact Or.inl ⟨c, by rw [← getFrontend_eq]; exact hc, hu⟩
          · have hne : a' ≠ a := fun h => hna (h ▸ ha')
            exact Or.inr ⟨a', ha', c, by rw [put_get, if_neg hne]; exact hc, hu⟩

theorem mem_keys_of_get {a : AgentID} {c : ConnectID} {p : ProxyClientConnection}
    (h : es.getFrontend a c = some p) : a ∈ es.keys := by
  rw [← AList.mem_keys]
  refine Classical.byContradiction fun hn => ?_
  rw [getFrontend, AList.lookup_eq_none.mpr hn] at h
  cases h

theorem removeForStream_get {u : StreamUID} (hu : u ≠ "") (a : AgentID) (c : ConnectID) :
    (es.removeForStream u).2.getFrontend a c =
      (es.getFrontend a c).filter fun p => !p.ofStream u := by
  unfold removeForStream
  rw [if_neg hu, (removeForStreamLoop_spec u es.keys_nodup).1]
  split
  · rfl
  · next hk =>
      cases hp : es.getFrontend a c with
      | none => rfl
      | some p => exact absurd (mem_keys_of_get hp) hk

theorem mem_removeForStream {u : StreamUID} (hu : u ≠ "") {p : ProxyClientConnection} :
    p ∈ (es.removeForStream u).1 ↔
      ∃ a c, es.getFrontend a c = some p ∧ p.ofStream u = true := by
  unfold removeForStream
  rw [if_neg hu, (removeForStreamLoop_spec u es.keys_nodup).2]
  constructor
  · rintro ⟨a, -, c, hc, hp⟩
    exact ⟨a, c, hc, hp⟩
  · rintro ⟨a, c, hc, hp⟩
    exact ⟨a, mem_keys_of_get hc, c, hc, hp⟩

end Established

end Konnectivity
