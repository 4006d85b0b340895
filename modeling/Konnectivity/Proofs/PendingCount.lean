import Konnectivity.Proofs.Tables

/-!
# The accounts of the pending dials

`dialsInFlight` of a backend is kept by four operations that each touch the
map and the counter. Here they run in any order, and a ledger beside the
manager numbers the additions and notes which of them a removal returned.

A removal is known by the entries it takes (`Removal.takes`): what it returns,
what it leaves and what it does to the counters all follow from that, so one
proof covers the three of them.
-/

namespace Konnectivity

open Lib

namespace PendingDialManager

variable {pm : PendingDialManager}

/-- The number of pending dials over a backend. -/
def pendingOf (pm : PendingDialManager) (b : BackendId) : Nat :=
  pm.pendingDial.values.countP fun p => p.backend = some b

theorem addInFlight_dialsInFlight (backend : Option BackendId) (delta : Int) (b : BackendId) :
    (pm.addInFlight backend delta).dialsInFlight b =
      pm.dialsInFlight b + if backend = some b then delta else 0 := by
  cases backend with
  | none => simp [addInFlight]
  | some b' =>
      by_cases h : b' = b
      · subst h
        simp [addInFlight]
      · simp [addInFlight, Function.update_of_ne (Ne.symm h), h]

/-- Taking a list of entries off the counters. -/
theorem foldl_addInFlight (b : BackendId) : ∀ (l : List ProxyClientConnection)
    (pm : PendingDialManager),
    (l.foldl (fun pm p => pm.addInFlight p.backend (-1)) pm).dialsInFlight b =
      pm.dialsInFlight b - l.countP fun p => p.backend = some b := by
  intro l
  induction l with
  | nil => intro pm; simp
  | cons p l ih =>
      intro pm
      rw [List.foldl_cons, ih, addInFlight_dialsInFlight, List.countP_cons]
      by_cases h : p.backend = some b
      · simp only [h, if_true, decide_true]
        omega
      · simp [h]

theorem removeMatching_fst (test : ProxyClientConnection → Bool) :
    (pm.removeMatching test).1 = pm.pendingDial.values.filter test :=
  GoMap.removeWhere_fst test pm.pendingDial

end PendingDialManager

/-! ## The removals -/

/-- The operations that take entries out of the manager. -/
inductive Removal where
  | remove (random : DialID)
  | removeForBackend (backend : Option BackendId)
  | removeForStream (streamUID : StreamUID)
  deriving DecidableEq, Repr

namespace Removal

def apply (pm : PendingDialManager) : Removal → List ProxyClientConnection × PendingDialManager
  | .remove random => ((pm.remove random).1.toList, (pm.remove random).2)
  | .removeForBackend backend => pm.removeForBackend backend
  | .removeForStream streamUID => pm.removeForStream streamUID

/-- The entries an operation is meant to take. -/
def takes : Removal → DialID → ProxyClientConnection → Bool
  | .remove random, r, _ => r = random
  | .removeForBackend backend, _, p => backend ≠ none ∧ p.backend = backend
  | .removeForStream streamUID, _, p => streamUID ≠ "" ∧ p.ofStream streamUID

/-- The entries an operation takes from the manager as it stands. -/
def taken (op : Removal) (pm : PendingDialManager) :
    List (Sigma fun _ : DialID => ProxyClientConnection) :=
  pm.pendingDial.entries.filter fun e => op.takes e.1 e.2

variable {pm : PendingDialManager}

theorem taken_remove_none {random : DialID} (h : pm.pendingDial.lookup random = none) :
    (remove random).taken pm = [] := by
  unfold taken
  refine List.filter_eq_nil_iff.mpr fun e he htakes => ?_
  have hkey : e.1 = random := of_decide_eq_true htakes
  rw [← hkey, GoMap.lookup_eq_some_iff.mpr he] at h
  cases h

theorem taken_remove_some {random : DialID} {p : ProxyClientConnection}
    (h : pm.pendingDial.lookup random = some p) :
    ((remove random).taken pm).Perm [⟨random, p⟩] := by
  have hrest : ((pm.pendingDial.erase random).entries.filter
      fun e => (remove random).takes e.1 e.2) = [] := by
    refine List.filter_eq_nil_iff.mpr fun e he htakes => ?_
    have hkey : e.1 = random := of_decide_eq_true htakes
    have hlook := GoMap.lookup_eq_some_iff.mpr he
    rw [hkey, AList.lookup_erase] at hlook
    cases hlook
  have hperm := (GoMap.entries_erase_perm h).filter fun e => (remove random).takes e.1 e.2
  rw [List.filter_cons_of_pos (by simp [takes]), hrest] at hperm
  exact hperm

/-- What a removal returns, leaves and takes off the counters. -/
structure Spec (op : Removal) (pm : PendingDialManager) : Prop where
  ret : (op.apply pm).1.Perm ((op.taken pm).map fun e => e.2)
  lookup : ∀ r, (op.apply pm).2.pendingDial.lookup r =
    (pm.pendingDial.lookup r).filter fun p => !op.takes r p
  split : pm.pendingDial.values.Perm
    ((op.apply pm).1 ++ (op.apply pm).2.pendingDial.values)
  inFlight : ∀ b, (op.apply pm).2.dialsInFlight b =
    pm.dialsInFlight b - (op.apply pm).1.countP fun p => p.backend = some b

theorem spec_remove (random : DialID) : (remove random).Spec pm := by
  have hlookup : ∀ r, ((remove random).apply pm).2.pendingDial.lookup r =
      (pm.pendingDial.lookup r).filter fun p => !(remove random).takes r p := by
    intro r
    rw [apply, PendingDialManager.remove_lookup]
    split
    · next h => cases pm.pendingDial.lookup r <;> simp [takes, h, Option.filter]
    · next h => cases pm.pendingDial.lookup r <;> simp [takes, h, Option.filter]
  cases h : pm.pendingDial.lookup random with
  | none =>
      have happly : (remove random).apply pm =
          ([], { pm with pendingDial := pm.pendingDial.erase random }) := by
        simp only [apply, PendingDialManager.remove, h, Option.toList_none]
      refine ⟨?_, hlookup, ?_, fun b => ?_⟩
      · rw [happly, taken_remove_none h]
        exact .nil
      · rw [happly, GoMap.erase_eq_of_none h]
        exact .refl _
      · rw [happly]
        simp
  | some p =>
      have happly : (remove random).apply pm =
          ([p], { pm with pendingDial := pm.pendingDial.erase random }.addInFlight
            p.backend (-1)) := by
        simp only [apply, PendingDialManager.remove, h, Option.toList_some]
      refine ⟨?_, hlookup, ?_, fun b => ?_⟩
      · rw [happly]
        exact ((taken_remove_some h).map fun e => e.2).symm
      · rw [happly, PendingDialManager.addInFlight_pendingDial]
        exact GoMap.values_erase_perm h
      · rw [happly, PendingDialManager.addInFlight_dialsInFlight, List.countP_singleton]
        by_cases hb : p.backend = some b
        · simp only [hb, if_true, decide_true]
          omega
        · simp [hb]

/-- The two bulk removals, by what their loop tests. -/
theorem spec_matching {op : Removal} (test : ProxyClientConnection → Bool)
    (happly : op.apply pm = pm.removeMatching test)
    (htakes : ∀ r p, op.takes r p = test p) : op.Spec pm where
  ret := by
    rw [happly, taken]
    simp only [htakes]
    exact .refl _
  lookup := fun r => by
    rw [happly, PendingDialManager.removeMatching_snd, GoMap.lookup_removeWhere]
    simp only [htakes]
  split := by
    rw [happly, PendingDialManager.removeMatching_snd]
    exact GoMap.values_removeWhere_perm test _
  inFlight := fun b => by
    rw [happly]
    exact PendingDialManager.foldl_addInFlight b _ _

/-- A removal that is not meant to do anything. -/
theorem spec_nothing {op : Removal} (happly : op.apply pm = ([], pm))
    (htakes : ∀ r p, op.takes r p = false) : op.Spec pm where
  ret := by
    rw [happly, taken]
    simp [htakes]
  lookup := fun r => by
    rw [happly]
    cases pm.pendingDial.lookup r <;> simp [htakes, Option.filter]
  split := by
    rw [happly]
    exact .refl _
  inFlight := fun b => by
    rw [happly]
    simp

theorem spec (op : Removal) (pm : PendingDialManager) : op.Spec pm := by
  cases op with
  | remove random => exact spec_remove random
  | removeForBackend backend =>
      cases backend with
      | none => exact spec_nothing rfl fun r p => by simp [takes]
      | some b =>
          exact spec_matching (fun p => p.backend = some b) rfl fun r p => by simp [takes]
  | removeForStream u =>
      by_cases hu : u = ""
      · refine spec_nothing ?_ fun r p => by simp [takes, hu]
        rw [apply, PendingDialManager.removeForStream, if_pos hu]
      · refine spec_matching (fun p => p.ofStream u) ?_ fun r p => by simp [takes, hu]
        rw [apply, PendingDialManager.removeForStream, if_neg hu]

end Removal

/-! ## The ledger -/

inductive PendingOp where
  | add (random : DialID) (clientConn : ProxyClientConnection)
  | removal (op : Removal)
  deriving DecidableEq, Repr

/-- The manager with a record of its past. Additions are numbered in order. -/
structure PendingLedger where
  pm : PendingDialManager := {}
  /-- Every entry ever added. -/
  added : List ProxyClientConnection := []
  /-- The addition that stored what is pending under an ID. -/
  storedBy : DialID → Option Nat := fun _ => none
  /-- What each removal returned, and the additions these entries come from. -/
  returned : List (List ProxyClientConnection × List Nat) := []

namespace PendingLedger

def step (s : PendingLedger) : PendingOp → PendingLedger
  | .add random clientConn =>
      { s with
        pm := s.pm.add random clientConn
        added := s.added ++ [clientConn]
        storedBy := Function.update s.storedBy random (some s.added.length) }
  | .removal op =>
      { s with
        pm := (op.apply s.pm).2
        returned := s.returned ++
          [((op.apply s.pm).1, (op.taken s.pm).filterMap fun e => s.storedBy e.1)] }

def run (ops : List PendingOp) : PendingLedger :=
  ops.foldl step {}

/-- The numbers of the additions returned so far. -/
def numbers (s : PendingLedger) : List Nat :=
  s.returned.flatMap fun x => x.2

/-- The accounts are in order. -/
structure Inv (s : PendingLedger) : Prop where
  /-- A backend is charged for its pending entries. -/
  inFlight : ∀ b, s.pm.dialsInFlight b = s.pm.pendingOf b
  /-- A pending entry is the entry of its addition, not yet returned. -/
  stored : ∀ r p, s.pm.pendingDial.lookup r = some p →
    ∃ n, s.storedBy r = some n ∧ s.added[n]? = some p ∧ n ∉ s.numbers
  /-- An addition stores under one ID. -/
  inj : ∀ r r' n, s.storedBy r = some n → s.storedBy r' = some n → r = r'
  storedBy_lt : ∀ r n, s.storedBy r = some n → n < s.added.length
  numbers_lt : ∀ n ∈ s.numbers, n < s.added.length
  /-- No addition is returned twice. -/
  nodup : s.numbers.Nodup
  /-- A removal returned the entries of the additions noted for it. -/
  entries : ∀ x ∈ s.returned, (x.1.map some).Perm (x.2.map fun n => s.added[n]?)

variable {s : PendingLedger}

theorem inv_init : Inv {} where
  inFlight := fun b => rfl
  stored := fun r p h => by cases h
  inj := fun r r' n h => by cases h
  storedBy_lt := fun r n h => by cases h
  numbers_lt := fun n h => by cases h
  nodup := .nil
  entries := fun x h => by cases h

/-! ### Additions -/

theorem add_inFlight (h : Inv s) (random : DialID) (p : ProxyClientConnection) (b : BackendId) :
    (s.pm.add random p).dialsInFlight b = (s.pm.add random p).pendingOf b := by
  have hvalues : (s.pm.add random p).pendingDial.values =
      p :: GoMap.values (s.pm.pendingDial.erase random) := by
    unfold PendingDialManager.add
    rw [PendingDialManager.addInFlight_pendingDial, ← GoMap.values_insert]
    cases s.pm.pendingDial.lookup random with
    | none => rfl
    | some old => simp
  rw [PendingDialManager.pendingOf, hvalues, List.countP_cons]
  unfold PendingDialManager.add
  rw [PendingDialManager.addInFlight_dialsInFlight]
  have hb := h.inFlight b
  rw [PendingDialManager.pendingOf] at hb
  cases hold : s.pm.pendingDial.lookup random with
  | none =>
      dsimp only
      rw [GoMap.erase_eq_of_none hold, hb]
      by_cases hp : p.backend = some b <;> simp [hp]
  | some old =>
      dsimp only
      -- the entry it replaces is taken off the counter first
      rw [PendingDialManager.addInFlight_dialsInFlight, hb,
        (GoMap.values_erase_perm hold).countP_eq, List.countP_cons]
      by_cases hp : p.backend = some b <;> by_cases ho : old.backend = some b <;>
        simp only [hp, ho, if_true, if_false, decide_true, decide_false, Bool.false_eq_true] <;>
        omega

theorem inv_add (h : Inv s) (random : DialID) (p : ProxyClientConnection) :
    Inv (s.step (.add random p)) where
  inFlight := add_inFlight h random p
  stored := fun r q hq => by
    change (s.pm.add random p).pendingDial.lookup r = some q at hq
    rw [PendingDialManager.add_lookup] at hq
    split at hq
    · next hr =>
        injection hq with hq
        subst hr hq
        refine ⟨s.added.length, Function.update_self .., ?_, fun hn => ?_⟩
        · exact List.getElem?_concat_length
        · exact Nat.lt_irrefl _ (h.numbers_lt _ hn)
    · next hr =>
        obtain ⟨n, hn, hadded, hnot⟩ := h.stored r q hq
        refine ⟨n, (Function.update_of_ne hr _ _).trans hn, ?_, hnot⟩
        exact (List.getElem?_append_left (h.storedBy_lt r n hn)).trans hadded
  inj := fun r r' n hr hr' => by
    change Function.update s.storedBy random (some s.added.length) r = some n at hr
    change Function.update s.storedBy random (some s.added.length) r' = some n at hr'
    have hnew : ∀ x, s.storedBy x ≠ some s.added.length := fun x hx =>
      Nat.lt_irrefl _ (h.storedBy_lt x _ hx)
    by_cases hx : r = random <;> by_cases hx' : r' = random
    · rw [hx, hx']
    · subst hx
      rw [Function.update_self] at hr
      rw [Function.update_of_ne hx', ← hr] at hr'
      exact absurd hr' (hnew r')
    · subst hx'
      rw [Function.update_self] at hr'
      rw [Function.update_of_ne hx, ← hr'] at hr
      exact absurd hr (hnew r)
    · rw [Function.update_of_ne hx] at hr
      rw [Function.update_of_ne hx'] at hr'
      exact h.inj r r' n hr hr'
  storedBy_lt := fun r n hn => by
    change Function.update s.storedBy random (some s.added.length) r = some n at hn
    show n < (s.added ++ [p]).length
    rw [List.length_append, List.length_singleton]
    by_cases hx : r = random
    · subst hx
      rw [Function.update_self] at hn
      injection hn with hn
      omega
    · rw [Function.update_of_ne hx] at hn
      exact Nat.lt_succ_of_lt (h.storedBy_lt r n hn)
  numbers_lt := fun n hn => by
    show n < (s.added ++ [p]).length
    rw [List.length_append]
    exact Nat.lt_add_right _ (h.numbers_lt n hn)
  nodup := h.nodup
  entries := fun x hx => by
    have hsame : x.2.map (fun n => (s.added ++ [p])[n]?) = x.2.map fun n => s.added[n]? := by
      refine List.map_congr_left fun n hn => ?_
      exact List.getElem?_append_left (h.numbers_lt n (List.mem_flatMap.mpr ⟨x, hx, hn⟩))
    show (x.1.map some).Perm (x.2.map fun n => (s.added ++ [p])[n]?)
    rw [hsame]
    exact h.entries x hx

/-! ### Removals -/

/-- The additions a removal takes the entries of. -/
def takenNumbers (s : PendingLedger) (op : Removal) : List Nat :=
  (op.taken s.pm).filterMap fun e => s.storedBy e.1

theorem numbers_removal (op : Removal) :
    (s.step (.removal op)).numbers = s.numbers ++ s.takenNumbers op := by
  unfold numbers
  show (s.returned ++ [((op.apply s.pm).1, s.takenNumbers op)]).flatMap (fun x => x.2) = _
  rw [List.flatMap_append, List.flatMap_singleton]

theorem lookup_of_taken {op : Removal} {e : Sigma fun _ : DialID => ProxyClientConnection}
    (he : e ∈ op.taken s.pm) :
    s.pm.pendingDial.lookup e.1 = some e.2 ∧ op.takes e.1 e.2 = true := by
  obtain ⟨hmem, htakes⟩ := List.mem_filter.mp he
  exact ⟨GoMap.lookup_eq_some_iff.mpr hmem, htakes⟩

theorem mem_takenNumbers {op : Removal} {n : Nat} (h : n ∈ s.takenNumbers op) :
    ∃ r p, s.storedBy r = some n ∧ s.pm.pendingDial.lookup r = some p ∧ op.takes r p = true := by
  obtain ⟨e, he, hn⟩ := List.mem_filterMap.mp h
  obtain ⟨hlook, htakes⟩ := lookup_of_taken he
  exact ⟨e.1, e.2, hn, hlook, htakes⟩

theorem takenNumbers_fresh (h : Inv s) {op : Removal} {n : Nat} (hn : n ∈ s.takenNumbers op) :
    n ∉ s.numbers := by
  obtain ⟨r, p, hr, hlook, -⟩ := mem_takenNumbers hn
  obtain ⟨n', hr', -, hnot⟩ := h.stored r p hlook
  rw [hr] at hr'
  injection hr' with hr'
  subst hr'
  exact hnot

theorem takenNumbers_nodup (h : Inv s) (op : Removal) : (s.takenNumbers op).Nodup := by
  have hkeys : ((op.taken s.pm).map Sigma.fst).Nodup :=
    (s.pm.pendingDial.nodupKeys.sublist List.filter_sublist : List.NodupKeys _)
  have hmap : s.takenNumbers op = ((op.taken s.pm).map Sigma.fst).filterMap s.storedBy :=
    List.filterMap_map.symm
  rw [hmap]
  exact hkeys.filterMap fun r r' n hr hr' => h.inj r r' n hr hr'

theorem map_takenNumbers (h : Inv s) (op : Removal) :
    (s.takenNumbers op).map (fun n => s.added[n]?) = (op.taken s.pm).map fun e => some e.2 := by
  have hall : ∀ l : List (Sigma fun _ : DialID => ProxyClientConnection),
      (∀ e ∈ l, s.pm.pendingDial.lookup e.1 = some e.2) →
      (l.filterMap fun e => s.storedBy e.1).map (fun n => s.added[n]?) =
        l.map fun e => some e.2 := by
    intro l
    induction l with
    | nil => intro _; rfl
    | cons e l ih =>
        intro hl
        obtain ⟨n, hn, hadded, -⟩ := h.stored e.1 e.2 (hl e List.mem_cons_self)
        rw [List.filterMap_cons, hn, List.map_cons, List.map_cons, hadded,
          ih fun e' he' => hl e' (List.mem_cons_of_mem _ he')]
  exact hall _ fun e he => (lookup_of_taken he).1

theorem inv_removal (h : Inv s) (op : Removal) : Inv (s.step (.removal op)) where
  inFlight := fun b => by
    have hsplit := ((op.spec s.pm).split).countP_eq fun p => decide (p.backend = some b)
    rw [List.countP_append] at hsplit
    have hb := h.inFlight b
    rw [PendingDialManager.pendingOf, hsplit] at hb
    show (op.apply s.pm).2.dialsInFlight b = _
    rw [(op.spec s.pm).inFlight b, hb]
    show _ = (((op.apply s.pm).2.pendingOf b : Nat) : Int)
    rw [PendingDialManager.pendingOf]
    omega
  stored := fun r p hp => by
    change (op.apply s.pm).2.pendingDial.lookup r = some p at hp
    rw [(op.spec s.pm).lookup r, Option.filter_eq_some_iff] at hp
    obtain ⟨n, hr, hadded, hnot⟩ := h.stored r p hp.1
    refine ⟨n, hr, hadded, fun hn => ?_⟩
    rw [numbers_removal, List.mem_append] at hn
    rcases hn with hn | hn
    · exact hnot hn
    · obtain ⟨r', p', hr', hlook, htakes⟩ := mem_takenNumbers hn
      have hsame := h.inj r r' n hr hr'
      subst hsame
      rw [hp.1] at hlook
      injection hlook with hlook
      subst hlook
      simp [htakes] at hp
  inj := h.inj
  storedBy_lt := h.storedBy_lt
  numbers_lt := fun n hn => by
    rw [numbers_removal, List.mem_append] at hn
    rcases hn with hn | hn
    · exact h.numbers_lt n hn
    · obtain ⟨r, p, hr, -, -⟩ := mem_takenNumbers hn
      exact h.storedBy_lt r n hr
  nodup := by
    rw [numbers_removal]
    refine List.nodup_append.mpr ⟨h.nodup, takenNumbers_nodup h op, fun n hn m hm => ?_⟩
    rintro rfl
    exact takenNumbers_fresh h hm hn
  entries := fun x hx => by
    rcases List.mem_append.mp hx with hx | hx
    · exact h.entries x hx
    · rw [List.mem_singleton] at hx
      subst hx
      show ((op.apply s.pm).1.map some).Perm ((s.takenNumbers op).map fun n => s.added[n]?)
      rw [map_takenNumbers h op]
      have hret := ((op.spec s.pm).ret).map some
      rw [List.map_map] at hret
      exact hret

/-! ### Runs -/

theorem inv_step (h : Inv s) (op : PendingOp) : Inv (s.step op) := by
  cases op with
  | add random p => exact inv_add h random p
  | removal op => exact inv_removal h op

theorem inv_foldl : ∀ (ops : List PendingOp) {s : PendingLedger}, Inv s →
    Inv (ops.foldl step s) := by
  intro ops
  induction ops with
  | nil => intro s h; exact h
  | cons op ops ih => intro s h; exact ih (inv_step h op)

theorem inv_run (ops : List PendingOp) : Inv (run ops) :=
  inv_foldl ops inv_init

/-- After any run, every backend is charged for its pending entries, no
addition has been returned twice, and the next operation touches only the
entries it is about. -/
theorem pending_accounts_exact (ops : List PendingOp) :
    let s := run ops
    (∀ b, s.pm.dialsInFlight b = s.pm.pendingOf b ∧ ¬ s.pm.dialsInFlight b < 0) ∧
    s.numbers.Nodup ∧
    (∀ x ∈ s.returned, (x.1.map some).Perm (x.2.map fun n => s.added[n]?)) ∧
    (∀ r p r', r' ≠ r → (s.pm.add r p).pendingDial.lookup r' = s.pm.pendingDial.lookup r') ∧
    (∀ r, (s.pm.remove r).1 = s.pm.pendingDial.lookup r ∧ ∀ r', r' ≠ r →
      (s.pm.remove r).2.pendingDial.lookup r' = s.pm.pendingDial.lookup r') ∧
    (∀ b, (s.pm.removeForBackend (some b)).1.Perm
        (s.pm.pendingDial.values.filter fun p => p.backend = some b) ∧
      ∀ r, (s.pm.removeForBackend (some b)).2.pendingDial.lookup r =
        (s.pm.pendingDial.lookup r).filter fun p => !decide (p.backend = some b)) ∧
    ∀ u, u ≠ "" → (s.pm.removeForStream u).1.Perm
        (s.pm.pendingDial.values.filter fun p => p.ofStream u) ∧
      ∀ r, (s.pm.removeForStream u).2.pendingDial.lookup r =
        (s.pm.pendingDial.lookup r).filter fun p => !p.ofStream u := by
  have h := inv_run ops
  refine ⟨fun b => ⟨h.inFlight b, ?_⟩, h.nodup, h.entries, fun r p r' hr => ?_, fun r => ?_,
    fun b => ?_, fun u hu => ?_⟩
  · rw [h.inFlight b]
    omega
  · rw [PendingDialManager.add_lookup, if_neg hr]
  · refine ⟨PendingDialManager.remove_fst r, fun r' hr => ?_⟩
    rw [PendingDialManager.remove_lookup, if_neg hr]
  · exact ⟨.of_eq (PendingDialManager.removeMatching_fst _),
      PendingDialManager.removeForBackend_lookup b⟩
  · refine ⟨?_, PendingDialManager.removeForStream_lookup hu⟩
    unfold PendingDialManager.removeForStream
    rw [if_neg hu]
    exact .of_eq (PendingDialManager.removeMatching_fst _)

/-- An ID added again for another backend moves the charge along. -/
theorem pending_accounts_exact_readded :
    (run [.add 1 ⟨none, 1, 0, "a", some 7, ""⟩, .add 1 ⟨none, 1, 0, "b", some 8, ""⟩]).pm.pendingOf
      8 = 1 ∧
    (run [.add 1 ⟨none, 1, 0, "a", some 7, ""⟩,
      .add 1 ⟨none, 1, 0, "b", some 8, ""⟩]).pm.dialsInFlight 8 = 1 := by
  have hcount : (run [.add 1 ⟨none, 1, 0, "a", some 7, ""⟩,
      .add 1 ⟨none, 1, 0, "b", some 8, ""⟩]).pm.pendingOf 8 = 1 := by decide
  refine ⟨hcount, ?_⟩
  rw [((pending_accounts_exact _).1 8).1, hcount]
  rfl

end PendingLedger

end Konnectivity
