import Mathlib.Data.List.Perm.Basic
import Konnectivity.Storage.Select

/-!
# What every storage operation keeps

`StorageInv` is the joint invariant of the map and the routing index. It is
stated against the draining flags at the moment, and it survives a flag being
set: the index only promises that an identifier filed as draining has a
draining first backend, never the converse, because the flag is published
before the managers hear of it.

`removeIdentifier` swaps, `removeBackend` deletes in place from the array it
ranges over. Both are read back here as plain `List.erase`, the second under
the hypothesis that the list has no duplicates, which is what keeps its loop
inside the array.
-/

namespace Konnectivity

open Lib

/-! ## The two deletions -/

theorem set_dropLast_perm {l₁ l₂ : List String} {k last : String}
    (hlast : (l₁ ++ k :: l₂).getLast? = some last) :
    (((l₁ ++ k :: l₂).set l₁.length last).dropLast).Perm (l₁ ++ l₂) := by
  rcases List.eq_nil_or_concat l₂ with rfl | ⟨l₃, x, rfl⟩
  · rw [List.set_append_right _ _ (Nat.le_refl _)]
    simp
  · have hx : last = x := by
      simpa [List.getLast?_append, List.getLast?_cons] using hlast.symm
    subst hx
    rw [List.set_append_right _ _ (Nat.le_refl _)]
    simp only [Nat.sub_self, List.set_cons_zero, List.concat_eq_append]
    rw [← List.cons_append, ← List.append_assoc, List.dropLast_concat]
    refine List.Perm.append_left l₁ ?_
    exact (List.perm_append_singleton last l₃).symm

/-- `removeIdentifier` deletes one occurrence, in no particular order. -/
theorem removeIdentifier_perm (l : List String) (k : String) :
    (removeIdentifier l k).Perm (l.erase k) := by
  unfold removeIdentifier
  by_cases hk : k ∈ l
  · obtain ⟨l₁, l₂, rfl, hk₁⟩ := List.eq_append_cons_of_mem hk
    have hidx : (l₁ ++ k :: l₂).idxOf? k = some l₁.length := by
      rw [List.idxOf?_eq_some_iff]
      exact ⟨by simp, by simp, fun j hj h => hk₁ (by
        rw [List.getElem_append_left hj] at h
        exact h ▸ List.getElem_mem hj)⟩
    rw [hidx]
    cases hlast : (l₁ ++ k :: l₂).getLast? with
    | none => simp at hlast
    | some last =>
        rw [List.erase_append_right _ hk₁, List.erase_cons_head]
        exact set_dropLast_perm hlast
  · rw [List.idxOf?_eq_none_iff.mpr hk, List.erase_of_not_mem hk]

theorem mem_removeIdentifier {l : List String} (hl : l.Nodup) {k x : String} :
    x ∈ removeIdentifier l k ↔ x ≠ k ∧ x ∈ l := by
  rw [(removeIdentifier_perm l k).mem_iff, hl.mem_erase_iff]

theorem removeIdentifier_nodup {l : List String} (hl : l.Nodup) (k : String) :
    (removeIdentifier l k).Nodup :=
  (removeIdentifier_perm l k).nodup_iff.mpr (hl.erase k)

theorem removeIdentifier_length {l : List String} {k : String} (hk : k ∈ l) :
    (removeIdentifier l k).length = l.length - 1 := by
  rw [(removeIdentifier_perm l k).length_eq, List.length_erase_of_mem hk]

namespace BackendStorage

/-- Indices at which the backend is not met leave the slice alone. -/
theorem removeLoop_skip {backend : BackendId} {arr : List BackendId} {len : Nat}
    {rest : List Nat} : ∀ {is : List Nat},
    (∀ i ∈ is, ∃ b, arr[i]? = some b ∧ b ≠ backend) →
    removeLoop backend (is ++ rest) arr len = removeLoop backend rest arr len := by
  intro is
  induction is with
  | nil => intro _; rfl
  | cons i is ih =>
      intro h
      obtain ⟨b, hb, hne⟩ := h i (by simp)
      rw [List.cons_append, removeLoop, hb]
      simp only [if_neg hne]
      exact ih fun j hj => h j (by simp [hj])

theorem removeLoop_all_skip {backend : BackendId} {arr : List BackendId} {len : Nat}
    {is : List Nat} (h : ∀ i ∈ is, ∃ b, arr[i]? = some b ∧ b ≠ backend) :
    removeLoop backend is arr len = some (arr, len) := by
  have := @removeLoop_skip backend arr len [] is h
  rw [List.append_nil] at this
  rw [this, removeLoop]

theorem range_split (m n : Nat) :
    List.range (m + (n + 1)) = List.range m ++ m :: (List.range n).map (m + 1 + ·) := by
  rw [List.range_add, List.range_succ_eq_map, List.map_cons, List.map_map]
  simp only [Nat.add_zero]
  congr 2
  refine List.map_congr_left fun x _ => ?_
  simp only [Function.comp_apply]
  omega

/-- Deleting in the middle: the tail moves down over the deleted element, and
the array's last element is left behind the new end. -/
theorem deleteAt_middle (pre post : List BackendId) (b : BackendId) :
    deleteAt (pre ++ b :: post) (pre ++ b :: post).length pre.length =
      some (pre ++ post ++ (b :: post).drop post.length, pre.length + post.length) := by
  have hdrop : (pre ++ b :: post).drop (pre.length + 1) = post := by
    rw [← List.drop_drop, List.drop_left, List.drop_succ_cons, List.drop_zero]
  have hgarbage : (pre ++ b :: post).drop (pre.length + post.length) =
      (b :: post).drop post.length := by
    rw [← List.drop_drop, List.drop_left]
  rw [deleteAt, if_pos (by simp), List.take_left, List.take_length, hdrop]
  simp only [List.length_append, List.length_cons]
  rw [show pre.length + (post.length + 1) - 1 = pre.length + post.length by omega, hgarbage]

/-- The deletion loop stays inside the array and deletes the backend, given
that the backend is registered at most once. -/
theorem removeLoop_spec {bes : List BackendId} (hnd : bes.Nodup) (backend : BackendId) :
    ∃ arr len, removeLoop backend (List.range bes.length) bes bes.length = some (arr, len) ∧
      arr.take len = bes.erase backend := by
  by_cases hmem : backend ∈ bes
  · obtain ⟨pre, post, rfl, hpre⟩ := List.eq_append_cons_of_mem hmem
    have hpost : backend ∉ post := (List.nodup_cons.mp (List.nodup_append.mp hnd).2.1).1
    have hdel := deleteAt_middle pre post backend
    refine ⟨pre ++ post ++ (backend :: post).drop post.length, pre.length + post.length,
      ?_, ?_⟩
    · rw [List.length_append, List.length_cons, range_split]
      rw [removeLoop_skip, removeLoop]
      · simp only [List.getElem?_append_right (Nat.le_refl _), Nat.sub_self,
          List.getElem?_cons_zero, if_true]
        rw [List.length_append, List.length_cons] at hdel
        rw [hdel]
        refine removeLoop_all_skip fun i hi => ?_
        obtain ⟨j, hj, rfl⟩ := List.mem_map.mp hi
        have hjlt : j < post.length := List.mem_range.mp hj
        have hlen : j + 1 < (post ++ (backend :: post).drop post.length).length := by
          simp only [List.length_append, List.length_drop, List.length_cons]
          omega
        refine ⟨(post ++ (backend :: post).drop post.length)[j + 1], ?_, fun h => hpost ?_⟩
        · rw [List.append_assoc, List.getElem?_append_right (by omega),
            show pre.length + 1 + j - pre.length = j + 1 by omega,
            List.getElem?_eq_getElem hlen]
        have hin := List.getElem_mem hlen
        rw [h] at hin
        rcases List.mem_append.mp hin with h' | h'
        · exact h'
        · obtain ⟨n, hn⟩ : ∃ n, post.length = n + 1 := ⟨post.length - 1, by omega⟩
          rw [hn, List.drop_succ_cons] at h'
          exact List.mem_of_mem_drop h'
      · intro i hi
        have hlt := List.mem_range.mp hi
        refine ⟨pre[i], ?_, fun h => hpre (h ▸ List.getElem_mem hlt)⟩
        rw [List.getElem?_append_left hlt, List.getElem?_eq_getElem hlt]
    · rw [List.erase_append_right _ hpre, List.erase_cons_head]
      rw [List.take_append_of_le_length (by simp), List.take_of_length_le (by simp)]
  · refine ⟨bes, bes.length, removeLoop_all_skip fun i hi => ?_, ?_⟩
    · have hlt := List.mem_range.mp hi
      exact ⟨bes[i], List.getElem?_eq_getElem hlt, fun h => hmem (h ▸ List.getElem_mem hlt)⟩
    · rw [List.erase_of_not_mem hmem, List.take_length]

end BackendStorage

/-! ## The invariant -/

/-- The routing index describes the map, under the given draining flags. -/
structure IndexInv (draining : BackendId → Bool) (s : BackendStorage) : Prop where
  nonDraining_nodup : s.nonDrainingAgentIDs.Nodup
  draining_nodup : s.drainingAgentIDs.Nodup
  disjoint : ∀ k ∈ s.nonDrainingAgentIDs, k ∉ s.drainingAgentIDs
  keys : ∀ k, (k ∈ s.nonDrainingAgentIDs ∨ k ∈ s.drainingAgentIDs) ↔ s.registered k ≠ []
  primary : ∀ k ∈ s.drainingAgentIDs, ∃ b, (s.registered k).head? = some b ∧ draining b = true

structure StorageInv (draining : BackendId → Bool) (s : BackendStorage) : Prop where
  nonempty : ∀ k, s.backends.lookup k ≠ some []
  nodup : ∀ k, (s.registered k).Nodup
  index : s.maintainRandomRoutingIndex = true → IndexInv draining s

/-- The index describes the map everywhere but possibly at `k`. -/
structure IndexInvExcept (k : String) (draining : BackendId → Bool) (s : BackendStorage) :
    Prop where
  nonDraining_nodup : s.nonDrainingAgentIDs.Nodup
  draining_nodup : s.drainingAgentIDs.Nodup
  disjoint : ∀ k ∈ s.nonDrainingAgentIDs, k ∉ s.drainingAgentIDs
  keys : ∀ k', k' ≠ k →
    ((k' ∈ s.nonDrainingAgentIDs ∨ k' ∈ s.drainingAgentIDs) ↔ s.registered k' ≠ [])
  primary : ∀ k' ∈ s.drainingAgentIDs, k' ≠ k →
    ∃ b, (s.registered k').head? = some b ∧ draining b = true

theorem IndexInv.except {draining : BackendId → Bool} {s : BackendStorage}
    (h : IndexInv draining s) (k : String) : IndexInvExcept k draining s where
  nonDraining_nodup := h.nonDraining_nodup
  draining_nodup := h.draining_nodup
  disjoint := h.disjoint
  keys := fun k' _ => h.keys k'
  primary := fun k' hk' _ => h.primary k' hk'

/-- Setting flags keeps the invariant. -/
theorem StorageInv.mono {d d' : BackendId → Bool} {s : BackendStorage}
    (hle : ∀ b, d b = true → d' b = true) (h : StorageInv d s) : StorageInv d' s where
  nonempty := h.nonempty
  nodup := h.nodup
  index := fun hm =>
    { h.index hm with
      primary := fun k hk =>
        let ⟨b, hb, hd⟩ := (h.index hm).primary k hk
        ⟨b, hb, hle b hd⟩ }

theorem IndexInvExcept.mono {d d' : BackendId → Bool} {k : String} {s : BackendStorage}
    (hle : ∀ b, d b = true → d' b = true) (h : IndexInvExcept k d s) :
    IndexInvExcept k d' s :=
  { h with
    primary := fun k' hk' hne =>
      let ⟨b, hb, hd⟩ := h.primary k' hk' hne
      ⟨b, hb, hle b hd⟩ }

namespace BackendStorage

variable {draining : BackendId → Bool} {s : BackendStorage}

/-- `refreshIdentifierState` touches the index only. -/
theorem refresh_backends (draining : BackendId → Bool) (s : BackendStorage) (k : String) :
    (s.refreshIdentifierState draining k).backends = s.backends := by
  unfold refreshIdentifierState
  split
  · rfl
  · split <;> dsimp only <;> split <;> rfl

theorem refresh_registered (draining : BackendId → Bool) (s : BackendStorage) (k k' : String) :
    (s.refreshIdentifierState draining k).registered k' = s.registered k' := by
  rw [registered, registered, refresh_backends]

/-- The two fields a manager fixes when it creates its storage. -/
def sameKind (s s' : BackendStorage) : Prop :=
  s'.maintainRandomRoutingIndex = s.maintainRandomRoutingIndex ∧ s'.idTypes = s.idTypes

theorem refresh_sameKind (draining : BackendId → Bool) (s : BackendStorage) (k : String) :
    s.sameKind (s.refreshIdentifierState draining k) := by
  unfold refreshIdentifierState
  split
  · exact ⟨rfl, rfl⟩
  · split <;> dsimp only <;> split <;> exact ⟨rfl, rfl⟩

/-- Putting an identifier into the right list, whatever the index said about
it before, restores the invariant: the other identifiers keep their places. -/
theorem index_repaired {s' : BackendStorage} {k : String} (h : IndexInvExcept k draining s)
    (hreg : ∀ x, s'.registered x = s.registered x)
    (hnd : s'.nonDrainingAgentIDs.Nodup) (hdr : s'.drainingAgentIDs.Nodup)
    (hN : ∀ x, x ≠ k → (x ∈ s'.nonDrainingAgentIDs ↔ x ∈ s.nonDrainingAgentIDs))
    (hD : ∀ x, x ≠ k → (x ∈ s'.drainingAgentIDs ↔ x ∈ s.drainingAgentIDs))
    (hdis : k ∈ s'.nonDrainingAgentIDs → k ∉ s'.drainingAgentIDs)
    (hkey : (k ∈ s'.nonDrainingAgentIDs ∨ k ∈ s'.drainingAgentIDs) ↔ s.registered k ≠ [])
    (hprim : k ∈ s'.drainingAgentIDs →
      ∃ b, (s.registered k).head? = some b ∧ draining b = true) :
    IndexInv draining s' := by
  refine ⟨hnd, hdr, ?_, ?_, ?_⟩
  · intro x hx hx'
    by_cases hxk : x = k
    · subst hxk; exact hdis hx hx'
    · exact h.disjoint x ((hN x hxk).mp hx) ((hD x hxk).mp hx')
  · intro x
    rw [hreg x]
    by_cases hxk : x = k
    · subst hxk; exact hkey
    · rw [hN x hxk, hD x hxk]; exact h.keys x hxk
  · intro x hx
    rw [hreg x]
    by_cases hxk : x = k
    · subst hxk; exact hprim hx
    · exact h.primary x ((hD x hxk).mp hx) hxk

theorem nodup_snoc {l : List String} {k : String} (hl : l.Nodup) (hk : k ∉ l) :
    (l ++ [k]).Nodup :=
  List.nodup_append.mpr ⟨hl, List.nodup_singleton k, fun _ ha _ hb hab =>
    hk ((hab.trans (List.mem_singleton.mp hb)) ▸ ha)⟩

/-- `refreshIdentifierState` repairs the index at its identifier. -/
theorem refresh_index {k : String} (h : IndexInvExcept k draining s) :
    IndexInv draining (s.refreshIdentifierState draining k) := by
  have hnd := removeIdentifier_nodup h.nonDraining_nodup k
  have hdr := removeIdentifier_nodup h.draining_nodup k
  have hmemN : ∀ x, x ∈ removeIdentifier s.nonDrainingAgentIDs k ↔
      x ≠ k ∧ x ∈ s.nonDrainingAgentIDs := fun _ => mem_removeIdentifier h.nonDraining_nodup
  have hmemD : ∀ x, x ∈ removeIdentifier s.drainingAgentIDs k ↔
      x ≠ k ∧ x ∈ s.drainingAgentIDs := fun _ => mem_removeIdentifier h.draining_nodup
  have hk : s.registered k = (s.backends.lookup k).getD [] := rfl
  unfold refreshIdentifierState
  split
  · next hnil =>
      rw [hnil] at hk
      refine index_repaired h (fun _ => rfl) hnd hdr ?_ ?_ ?_ ?_ ?_ <;> simp_all
  · next primary tail hcons =>
      rw [hcons] at hk
      have hhead : (s.registered k).head? = some primary := by rw [hk]; rfl
      split
      · next hdrain =>
          dsimp only
          split
          · next hin =>
              refine index_repaired h (fun _ => rfl) hnd h.draining_nodup ?_ ?_ ?_ ?_ ?_
                <;> simp_all
          · next hin =>
              refine index_repaired h (fun _ => rfl) hnd (nodup_snoc h.draining_nodup hin)
                ?_ ?_ ?_ ?_ ?_ <;> simp_all
      · next hdrain =>
          dsimp only
          split
          · next hin =>
              refine index_repaired h (fun _ => rfl) h.nonDraining_nodup hdr ?_ ?_ ?_ ?_ ?_
                <;> simp_all
          · next hin =>
              refine index_repaired h (fun _ => rfl) (nodup_snoc h.nonDraining_nodup hin) hdr
                ?_ ?_ ?_ ?_ ?_ <;> simp_all

theorem registered_eq_nil_iff (h : ∀ k, s.backends.lookup k ≠ some []) {k : String} :
    s.registered k = [] ↔ s.backends.lookup k = none := by
  unfold registered
  cases hk : s.backends.lookup k with
  | none => simp
  | some l =>
      have hl : l ≠ [] := fun hl => h k (by rw [hk, hl])
      simp [hl]

theorem refresh_inv (h : StorageInv draining s) (k : String) :
    StorageInv draining (s.refreshIdentifierState draining k) where
  nonempty := by rw [refresh_backends]; exact h.nonempty
  nodup := fun k' => by rw [refresh_registered]; exact h.nodup k'
  index := fun hm => refresh_index ((h.index ((refresh_sameKind ..).1 ▸ hm)).except k)

/-! ## The operations -/

theorem mark_inv (h : StorageInv draining s) (k : String) (t : IdentifierType) (b : BackendId) :
    StorageInv draining (s.markIdentifierBackendDraining draining k t b) := by
  unfold markIdentifierBackendDraining
  split
  · exact h
  · split
    · split
      · exact refresh_inv h k
      · exact h
    · exact h

theorem mark_registered (draining : BackendId → Bool) (s : BackendStorage) (k : String)
    (t : IdentifierType) (b : BackendId) (k' : String) :
    (s.markIdentifierBackendDraining draining k t b).registered k' = s.registered k' := by
  unfold markIdentifierBackendDraining
  split
  · rfl
  · split
    · split
      · exact refresh_registered ..
      · rfl
    · rfl

theorem mark_sameKind (draining : BackendId → Bool) (s : BackendStorage) (k : String)
    (t : IdentifierType) (b : BackendId) :
    s.sameKind (s.markIdentifierBackendDraining draining k t b) := by
  unfold markIdentifierBackendDraining
  split
  · exact ⟨rfl, rfl⟩
  · split
    · split
      · exact refresh_sameKind ..
      · exact ⟨rfl, rfl⟩
    · exact ⟨rfl, rfl⟩

theorem add_sameKind (draining : BackendId → Bool) (s : BackendStorage) (k : String)
    (t : IdentifierType) (b : BackendId) : s.sameKind (s.addBackend draining k t b) := by
  unfold addBackend
  split
  · exact ⟨rfl, rfl⟩
  · split
    · split <;> exact ⟨rfl, rfl⟩
    · dsimp only
      split
      · split <;> exact ⟨rfl, rfl⟩
      · exact ⟨rfl, rfl⟩

/-- Where `addBackend` puts the backend: at the end of its identifier's list,
unless it is there already. -/
theorem add_registered (draining : BackendId → Bool) {t : IdentifierType}
    (ht : t ∈ s.idTypes) (k : String) (b : BackendId) (k' : String) :
    (s.addBackend draining k t b).registered k' =
      if k' = k ∧ b ∉ s.registered k then s.registered k ++ [b] else s.registered k' := by
  unfold addBackend
  rw [if_neg (by simpa using ht)]
  cases hk : s.backends.lookup k with
  | some bes =>
      have hreg : s.registered k = bes := by rw [registered, hk]; rfl
      by_cases hb : b ∈ bes
      · simp only [if_pos hb]
        rw [if_neg (by rw [hreg]; simp [hb])]
      · simp only [if_neg hb]
        rw [registered, GoMap.lookup_insert_if, hreg]
        by_cases hkk : k' = k
        · simp [hkk, hb]
        · rw [if_neg hkk, if_neg (by simp [hkk])]
          rfl
  | none =>
      have hreg : s.registered k = [] := by rw [registered, hk]; rfl
      have hins : ((s.backends.insert k [b]).lookup k').getD [] =
          if k' = k ∧ b ∉ s.registered k then s.registered k ++ [b] else s.registered k' := by
        rw [GoMap.lookup_insert_if, hreg]
        by_cases hkk : k' = k
        · simp [hkk]
        · rw [if_neg hkk, if_neg (by simp [hkk])]
          rfl
      dsimp only
      split
      · split <;> exact hins
      · exact hins

theorem add_inv (h : StorageInv draining s) (k : String) (t : IdentifierType) (b : BackendId) :
    StorageInv draining (s.addBackend draining k t b) := by
  by_cases ht : t ∈ s.idTypes
  case neg =>
    unfold addBackend
    rw [if_pos ht]
    exact h
  have hreg := add_registered (s := s) draining ht k b
  refine ⟨?_, ?_, ?_⟩
  · intro k'
    unfold addBackend
    rw [if_neg (by simpa using ht)]
    split
    · split
      · exact h.nonempty k'
      · dsimp only
        rw [GoMap.lookup_insert_if]
        split
        · simp
        · exact h.nonempty k'
    · have : ((s.backends.insert k [b]).lookup k') ≠ some [] := by
        rw [GoMap.lookup_insert_if]
        split
        · simp
        · exact h.nonempty k'
      dsimp only
      split
      · split <;> exact this
      · exact this
  · intro k'
    rw [hreg k']
    split
    · next hcond =>
        exact List.nodup_append.mpr ⟨h.nodup k, List.nodup_singleton b, fun x hx y hy hxy =>
          hcond.2 ((hxy.trans (List.mem_singleton.mp hy)) ▸ hx)⟩
    · exact h.nodup k'
  · intro hm
    have hm' : s.maintainRandomRoutingIndex = true := (add_sameKind ..).1 ▸ hm
    have hi := h.index hm'
    unfold addBackend at hreg ⊢
    rw [if_neg (by simpa using ht)] at hreg ⊢
    cases hk : s.backends.lookup k with
    | some bes =>
        -- The list grows at its end, so its first backend stays the primary.
        rw [hk] at hreg
        dsimp only at hreg ⊢
        have hreg0 : s.registered k = bes := by rw [registered, hk]; rfl
        have hne : bes ≠ [] := fun hb => h.nonempty k (by rw [hk, hb])
        split
        · exact hi
        · next hb =>
            rw [if_neg hb] at hreg
            refine ⟨hi.nonDraining_nodup, hi.draining_nodup, hi.disjoint, ?_, ?_⟩
            · intro x
              rw [hreg x]
              by_cases hx : x = k
              · subst hx
                rw [if_pos ⟨rfl, by rw [hreg0]; exact hb⟩]
                simp [hi.keys x, hreg0, hne]
              · rw [if_neg (by simp [hx])]
                exact hi.keys x
            · intro x hx
              rw [hreg x]
              by_cases hxk : x = k
              · subst hxk
                rw [if_pos ⟨rfl, by rw [hreg0]; exact hb⟩, List.head?_append]
                obtain ⟨p, hp, hd⟩ := hi.primary x hx
                exact ⟨p, by rw [hp]; rfl, hd⟩
              · rw [if_neg (by simp [hxk])]
                exact hi.primary x hx
    | none =>
        -- A new identifier is in neither list, and goes into the right one.
        rw [hk] at hreg
        have hreg0 : s.registered k = [] := by rw [registered, hk]; rfl
        have hnotin : k ∉ s.nonDrainingAgentIDs ∧ k ∉ s.drainingAgentIDs := by
          have := (hi.keys k).not.mpr (by simp [hreg0])
          exact ⟨fun hx => this (Or.inl hx), fun hx => this (Or.inr hx)⟩
        have hins : ∀ x, registered { s with backends := s.backends.insert k [b] } x =
            if x = k then [b] else s.registered x := by
          intro x
          rw [registered, GoMap.lookup_insert_if]
          split
          · rfl
          · rfl
        have hex : IndexInvExcept k draining
            { s with backends := s.backends.insert k [b] } := by
          refine ⟨hi.nonDraining_nodup, hi.draining_nodup, hi.disjoint, ?_, ?_⟩
          · intro x hx
            rw [hins x, if_neg hx]
            exact hi.keys x
          · intro x hx hxk
            rw [hins x, if_neg hxk]
            exact hi.primary x hx
        have hkreg : registered { s with backends := s.backends.insert k [b] } k = [b] :=
          (hins k).trans (if_pos rfl)
        dsimp only
        rw [if_pos hm']
        split
        · next hd =>
            refine index_repaired hex (fun _ => rfl) hi.nonDraining_nodup
              (nodup_snoc hi.draining_nodup hnotin.2) ?_ ?_ ?_ ?_ ?_ <;> simp_all
        · next hd =>
            refine index_repaired hex (fun _ => rfl)
              (nodup_snoc hi.nonDraining_nodup hnotin.1) hi.draining_nodup
              ?_ ?_ ?_ ?_ ?_ <;> simp_all

theorem put_lookup (s : BackendStorage) (k : String) (bes : List BackendId) (k' : String) :
    (s.putBackends k bes).backends.lookup k' =
      if k' = k then (if bes = [] then none else some bes) else s.backends.lookup k' := by
  unfold putBackends
  by_cases hb : bes = []
  · subst hb
    simp only [List.length_nil, if_true]
    exact GoMap.lookup_erase_if ..
  · rw [if_neg (by simpa using hb), GoMap.lookup_insert_if, if_neg hb]

theorem put_registered (s : BackendStorage) (k : String) (bes : List BackendId) (k' : String) :
    (s.putBackends k bes).registered k' = if k' = k then bes else s.registered k' := by
  rw [registered, put_lookup]
  by_cases hk : k' = k
  · simp only [if_pos hk]
    by_cases hb : bes = []
    · rw [if_pos hb, hb]; rfl
    · rw [if_neg hb]; rfl
  · rw [if_neg hk, if_neg hk]
    rfl

/-- `removeBackend` stays inside its array, deletes the backend from its
identifier's list, and keeps the invariant. -/
theorem remove_spec (h : StorageInv draining s) {t : IdentifierType} (ht : t ∈ s.idTypes)
    (k : String) (b : BackendId) :
    ∃ s', s.removeBackend draining k t b = some s' ∧ StorageInv draining s' ∧
      s.sameKind s' ∧ ∀ k', s'.registered k' =
        if k' = k then (s.registered k).erase b else s.registered k' := by
  unfold removeBackend
  rw [if_neg (by simpa using ht)]
  cases hk : s.backends.lookup k with
  | none =>
      have hreg0 : s.registered k = [] := by rw [registered, hk]; rfl
      refine ⟨s, rfl, h, ⟨rfl, rfl⟩, fun k' => ?_⟩
      split
      · next hkk => rw [hkk, hreg0]; rfl
      · rfl
  | some bes =>
      have hreg0 : s.registered k = bes := by rw [registered, hk]; rfl
      obtain ⟨arr, len, hloop, harr⟩ := removeLoop_spec (hreg0 ▸ h.nodup k) b
      dsimp only
      rw [hloop]
      dsimp only
      rw [harr, ← hreg0]
      have hreg := put_registered s k ((s.registered k).erase b)
      have hne : ∀ k', (s.putBackends k ((s.registered k).erase b)).backends.lookup k' ≠
          some [] := by
        intro k'
        rw [put_lookup]
        split
        · split
          · simp
          · next hz => simpa using hz
        · exact h.nonempty k'
      have hnodup : ∀ k', ((s.putBackends k ((s.registered k).erase b)).registered k').Nodup := by
        intro k'
        rw [hreg]
        split
        · exact (h.nodup k).erase b
        · exact h.nodup k'
      split
      · next hm =>
          have hi := h.index hm
          have hex : IndexInvExcept k draining (s.putBackends k ((s.registered k).erase b)) := by
            refine ⟨hi.nonDraining_nodup, hi.draining_nodup, hi.disjoint, ?_, ?_⟩
            · intro x hx
              rw [hreg x, if_neg hx]
              exact hi.keys x
            · intro x hx hxk
              rw [hreg x, if_neg hxk]
              exact hi.primary x hx
          refine ⟨_, rfl, ⟨?_, ?_, fun _ => refresh_index hex⟩, refresh_sameKind .., ?_⟩
          · rw [refresh_backends]; exact hne
          · intro k'; rw [refresh_registered]; exact hnodup k'
          · intro k'; rw [refresh_registered]; exact hreg k'
      · next hm => exact ⟨_, rfl, ⟨hne, hnodup, fun hm' => absurd hm' hm⟩, ⟨rfl, rfl⟩, hreg⟩

end BackendStorage

end Konnectivity
