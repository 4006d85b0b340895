import Mathlib.Data.List.AList

/-!
# Finite maps the way Go code uses them

A Go map is a finite map read by key, written by key, deleted by key, and
ranged over. `AList` gives the first three; this file adds the loop every
manager of this repository has in some form: range over the map, delete the
entries that satisfy a test, and return them (`removeWhere`). Go ranges in an
unspecified order and `removeWhere` in the order of the list, so a caller for
whom the order matters permutes the result.
-/

namespace Konnectivity.Lib

/-- A Go `map[K]V`. -/
abbrev GoMap (K V : Type) := AList (fun _ : K => V)

namespace GoMap

variable {K V : Type} [DecidableEq K]

/-- The entries for which the test holds, deleted from the map and returned. -/
def removeWhere (p : V → Bool) (m : GoMap K V) : List V × GoMap K V :=
  ((m.entries.filter fun e => p e.2).map fun e => e.2,
    ⟨m.entries.filter fun e => !p e.2,
      m.nodupKeys.sublist List.filter_sublist⟩)

/-- `len(m)`. -/
def size (m : GoMap K V) : Nat := m.entries.length

/-- Every value of the map, once per key. -/
def values (m : GoMap K V) : List V := m.entries.map fun e => e.2

theorem lookup_insert_if (k k' : K) (v : V) (m : GoMap K V) :
    (m.insert k' v).lookup k = if k = k' then some v else m.lookup k := by
  by_cases h : k = k'
  · subst h
    rw [if_pos rfl, AList.lookup_insert]
  · rw [if_neg h, AList.lookup_insert_ne h]

theorem lookup_erase_if (k k' : K) (m : GoMap K V) :
    (m.erase k').lookup k = if k = k' then none else m.lookup k := by
  by_cases h : k = k'
  · subst h
    rw [if_pos rfl, AList.lookup_erase]
  · rw [if_neg h, AList.lookup_erase_ne h]

theorem lookup_eq_some_iff {k : K} {v : V} {m : GoMap K V} :
    m.lookup k = some v ↔ (⟨k, v⟩ : Sigma fun _ : K => V) ∈ m.entries :=
  AList.mem_lookup_iff

theorem mem_values_iff {v : V} {m : GoMap K V} :
    v ∈ m.values ↔ ∃ k, m.lookup k = some v := by
  constructor
  · intro h
    obtain ⟨⟨k, w⟩, he, rfl⟩ := List.mem_map.mp h
    exact ⟨k, lookup_eq_some_iff.mpr he⟩
  · rintro ⟨k, h⟩
    exact List.mem_map.mpr ⟨⟨k, v⟩, lookup_eq_some_iff.mp h, rfl⟩

theorem mem_removeWhere {p : V → Bool} {m : GoMap K V} {v : V} :
    v ∈ (m.removeWhere p).1 ↔ ∃ k, m.lookup k = some v ∧ p v = true := by
  constructor
  · intro h
    obtain ⟨⟨k, w⟩, he, rfl⟩ := List.mem_map.mp h
    rw [List.mem_filter] at he
    exact ⟨k, lookup_eq_some_iff.mpr he.1, he.2⟩
  · rintro ⟨k, h, hp⟩
    exact List.mem_map.mpr ⟨⟨k, v⟩,
      List.mem_filter.mpr ⟨lookup_eq_some_iff.mp h, hp⟩, rfl⟩

/-- Values that know their key are returned once each. -/
theorem removeWhere_map_nodup {p : V → Bool} {m : GoMap K V} {f : V → K}
    (h : ∀ k v, m.lookup k = some v → f v = k) : ((m.removeWhere p).1.map f).Nodup := by
  have hkeys : (m.removeWhere p).1.map f = (m.entries.filter fun e => p e.2).map Sigma.fst := by
    unfold removeWhere
    rw [List.map_map]
    refine List.map_congr_left fun e he => ?_
    exact h e.1 e.2 (lookup_eq_some_iff.mpr (List.mem_filter.mp he).1)
  rw [hkeys]
  exact (m.nodupKeys.sublist List.filter_sublist : List.NodupKeys _)

/-- Reading the map after a `removeWhere`. -/
theorem lookup_removeWhere (p : V → Bool) (m : GoMap K V) (k : K) :
    (m.removeWhere p).2.lookup k = (m.lookup k).filter fun v => !p v := by
  cases h : m.lookup k with
  | none =>
      rw [Option.filter_none]
      cases h' : (m.removeWhere p).2.lookup k with
      | none => rfl
      | some v =>
          have hv := (List.mem_filter.mp (lookup_eq_some_iff.mp h')).1
          rw [lookup_eq_some_iff.mpr hv] at h
          cases h
  | some v =>
      have hv := lookup_eq_some_iff.mp h
      cases hp : p v with
      | false =>
          have : (⟨k, v⟩ : Sigma fun _ : K => V) ∈ (m.removeWhere p).2.entries :=
            List.mem_filter.mpr ⟨hv, by simp [hp]⟩
          rw [lookup_eq_some_iff.mpr this]
          simp [Option.filter, hp]
      | true =>
          cases h' : (m.removeWhere p).2.lookup k with
          | none => simp [Option.filter, hp]
          | some w =>
              obtain ⟨hw, hpw⟩ := List.mem_filter.mp (lookup_eq_some_iff.mp h')
              rw [lookup_eq_some_iff.mpr hw] at h
              injection h with h
              subst h
              simp [hp] at hpw

/-! ## Counting the entries -/

theorem entries_erase_perm {k : K} {v : V} {m : GoMap K V} (h : m.lookup k = some v) :
    m.entries.Perm (⟨k, v⟩ :: (m.erase k).entries) := by
  have hkey : k ∈ m.entries.keys := AList.lookup_isSome.mp (by rw [h]; rfl)
  obtain ⟨w, l₁, l₂, -, hentries, herase⟩ := List.exists_of_kerase hkey
  have hmem : (⟨k, w⟩ : Sigma fun _ : K => V) ∈ m.entries := by
    rw [hentries]
    exact List.mem_append_right _ List.mem_cons_self
  rw [lookup_eq_some_iff.mpr hmem] at h
  injection h with h
  subst h
  show m.entries.Perm (⟨k, w⟩ :: List.kerase k m.entries)
  rw [herase, hentries]
  exact List.perm_middle

theorem erase_eq_of_none {k : K} {m : GoMap K V} (h : m.lookup k = none) : m.erase k = m :=
  AList.ext (List.kerase_of_notMem_keys (AList.lookup_eq_none.mp h))

/-- Whatever stood under the key before, the entry comes on top of the rest. -/
theorem values_insert (k : K) (v : V) (m : GoMap K V) :
    values (m.insert k v) = v :: values (m.erase k) := by
  unfold values
  rw [AList.entries_insert]
  rfl

theorem values_erase_perm {k : K} {v : V} {m : GoMap K V} (h : m.lookup k = some v) :
    m.values.Perm (v :: values (m.erase k)) :=
  (entries_erase_perm h).map _

omit [DecidableEq K] in
theorem values_removeWhere_perm (p : V → Bool) (m : GoMap K V) :
    m.values.Perm ((m.removeWhere p).1 ++ (m.removeWhere p).2.values) := by
  unfold values removeWhere
  rw [← List.map_append]
  exact ((List.filter_append_perm _ _).map _).symm

omit [DecidableEq K] in
theorem removeWhere_fst (p : V → Bool) (m : GoMap K V) :
    (m.removeWhere p).1 = m.values.filter p := by
  unfold values removeWhere
  rw [List.filter_map]
  rfl

end GoMap

end Konnectivity.Lib
