import Mathlib.Data.List.Induction

/-!
# The part of a stream between two marks

Many conversations share one stream. The part of one of them begins with the
first item that opens it, takes the items that are inside, and is over with the
first one that ends it. The window is read off item by item, so that a reader
of the stream and a reader of its log see the same.
-/

namespace Konnectivity.Lib

variable {α : Type}

/-- Which items open a conversation, belong to it and end it. -/
structure Window (α : Type) where
  opens : α → Bool
  inside : α → Bool
  ends : α → Bool
  opens_ends : ∀ a, opens a = true → ends a = false

namespace Window

variable (w : Window α)

/-- The window after one more item of the stream. -/
def extend (l : List α) (a : α) : List α :=
  match l with
  | [] => if w.opens a then [a] else []
  | l => if l.any w.ends then l else if w.inside a then l ++ [a] else l

/-- The window of a stream. -/
def view (l : List α) : List α := l.foldl w.extend []

variable {w} {l l' : List α} {a : α}

theorem view_snoc (l : List α) (a : α) : w.view (l ++ [a]) = w.extend (w.view l) a := by
  simp [view]

theorem extend_nil : w.extend [] a = if w.opens a then [a] else [] := rfl

theorem extend_ended (h : l.any w.ends = true) : w.extend l a = l := by
  cases l with
  | nil => cases h
  | cons x l => exact if_pos h

theorem extend_inside (hne : l ≠ []) (hend : l.any w.ends = false) (h : w.inside a = true) :
    w.extend l a = l ++ [a] := by
  cases l with
  | nil => exact absurd rfl hne
  | cons x l => simp [extend, hend, h]

theorem extend_outside (hopen : w.opens a = false) (h : w.inside a = false) : w.extend l a = l := by
  cases l with
  | nil => simp [extend, hopen]
  | cons x l => simp [extend, h]

theorem extend_cases (w : Window α) (l : List α) (a : α) :
    w.extend l a = l ∨
    (l = [] ∧ w.opens a = true ∧ w.extend l a = [a]) ∨
    (l ≠ [] ∧ l.any w.ends = false ∧ w.inside a = true ∧ w.extend l a = l ++ [a]) := by
  cases l with
  | nil =>
      rw [extend_nil]
      by_cases h : w.opens a = true <;> simp [h]
  | cons x l =>
      by_cases hend : (x :: l).any w.ends = true
      · exact Or.inl (extend_ended hend)
      · rw [Bool.not_eq_true] at hend
        by_cases h : w.inside a = true
        · exact Or.inr (Or.inr ⟨List.cons_ne_nil _ _, hend, h,
            extend_inside (List.cons_ne_nil _ _) hend h⟩)
        · exact Or.inl (by simp [extend, h])

theorem prefix_extend (w : Window α) (l : List α) (a : α) : l <+: w.extend l a := by
  rcases extend_cases w l a with h | ⟨rfl, -, h⟩ | ⟨-, -, -, h⟩
  · exact ⟨[], by rw [List.append_nil, h]⟩
  · exact List.nil_prefix
  · rw [h]
    exact List.prefix_append l [a]

theorem view_append (l l' : List α) : w.view l <+: w.view (l ++ l') := by
  induction l' using List.reverseRecOn with
  | nil => simp
  | append_singleton l' a ih =>
      rw [← List.append_assoc, view_snoc]
      exact ih.trans (prefix_extend w _ a)

theorem view_mono (h : l <+: l') : w.view l <+: w.view l' := by
  obtain ⟨r, rfl⟩ := h
  exact view_append l r

/-- Nothing is seen before the window is opened. -/
theorem view_eq_nil : w.view l = [] ↔ ∀ a ∈ l, w.opens a = false := by
  induction l using List.reverseRecOn with
  | nil => simp [view]
  | append_singleton l a ih =>
      rw [view_snoc]
      constructor
      · intro h
        have hnil : w.view l = [] := List.prefix_nil.mp (h ▸ prefix_extend w (w.view l) a)
        rw [hnil, extend_nil] at h
        intro x hx
        rcases List.mem_append.mp hx with hx | hx
        · exact ih.mp hnil x hx
        · rw [List.mem_singleton.mp hx]
          by_contra hne
          simp [hne] at h
      · intro h
        have hnil := ih.mpr fun x hx => h x (List.mem_append_left _ hx)
        rw [hnil, extend_nil]
        simp [h a (by simp)]

/-- A window begins with the item that opens it. -/
theorem view_head (h : (w.view l).head? = some a) : w.opens a = true := by
  induction l using List.reverseRecOn with
  | nil => cases h
  | append_singleton l x ih =>
      rw [view_snoc] at h
      rcases extend_cases w (w.view l) x with heq | ⟨-, ho, heq⟩ | ⟨hne, -, -, heq⟩
      · rw [heq] at h
        exact ih h
      · rw [heq] at h
        cases h
        exact ho
      · obtain ⟨y, r, hview⟩ := List.exists_cons_of_ne_nil hne
        rw [heq, hview] at h
        refine ih ?_
        rw [hview]
        exact h

/-- An item that ends the window is the last one in it. -/
theorem view_ends (w : Window α) (l : List α) : (w.view l).dropLast.any w.ends = false := by
  induction l using List.reverseRecOn with
  | nil => rfl
  | append_singleton l a ih =>
      rw [view_snoc]
      rcases extend_cases w (w.view l) a with h | ⟨-, -, h⟩ | ⟨-, hend, -, h⟩
      · rw [h]
        exact ih
      · rw [h]
        rfl
      · rw [h, List.dropLast_concat]
        exact hend

/-- What holds an end of the window is all of it. -/
theorem eq_view_of_end (h : l' <+: w.view l) (hend : l'.any w.ends = true) : l' = w.view l := by
  obtain ⟨r, hr⟩ := h
  rcases List.eq_nil_or_concat r with rfl | ⟨r, a, rfl⟩
  · rw [← hr, List.append_nil]
  · have hlast := view_ends w l
    rw [← hr, List.concat_eq_append, ← List.append_assoc, List.dropLast_concat, List.any_append,
      hend] at hlast
    cases hlast

/-- A stream that begins with the item that opens the window and stays inside. -/
theorem view_inside (hopen : w.opens a = true) :
    ∀ {l : List α}, (∀ x ∈ l, w.inside x = true ∧ w.ends x = false) → w.view (a :: l) = a :: l := by
  intro l
  induction l using List.reverseRecOn with
  | nil => intro _; simp [view, extend, hopen]
  | append_singleton l x ih =>
      intro h
      have hl := ih fun y hy => h y (List.mem_append_left _ hy)
      have hnot : (a :: l).any w.ends = false := by
        rw [List.any_eq_false]
        intro y hy
        rw [Bool.not_eq_true]
        rcases List.mem_cons.mp hy with rfl | hy
        · exact w.opens_ends y hopen
        · exact (h y (List.mem_append_left _ hy)).2
      rw [← List.cons_append, view_snoc, hl]
      exact extend_inside (List.cons_ne_nil _ _) hnot (h x (by simp)).1

/-- The items outside `p` may end the window, and do nothing else. -/
theorem view_filter {p : α → Bool} (hopen : ∀ a, w.opens a = true → p a = true)
    (hends : ∀ a, p a = false → w.inside a = true → w.ends a = true) (l : List α) :
    w.view l = w.view (l.filter p) ∨ ∃ front e, w.view l = front ++ [e] ∧
      front <+: w.view (l.filter p) ∧ p e = false ∧ e ∈ l ∧ w.inside e = true := by
  induction l using List.reverseRecOn with
  | nil => exact Or.inl rfl
  | append_singleton l a ih =>
      rw [view_snoc]
      rcases ih with heq | ⟨front, e, hview, hfront, he, hmem, hin⟩
      · by_cases hp : p a = true
        · refine Or.inl ?_
          rw [List.filter_append, List.filter_cons_of_pos hp, List.filter_nil, view_snoc, heq]
        · rw [List.filter_append, List.filter_cons_of_neg hp, List.filter_nil, List.append_nil,
            ← heq]
          rcases extend_cases w (w.view l) a with h | ⟨-, ho, -⟩ | ⟨-, -, hin, h⟩
          · exact Or.inl h
          · exact absurd (hopen a ho) hp
          · exact Or.inr ⟨w.view l, a, h, List.prefix_rfl, Bool.eq_false_iff.mpr hp, by simp, hin⟩
      · refine Or.inr ⟨front, e, ?_, ?_, he, List.mem_append_left _ hmem, hin⟩
        · rw [hview]
          exact extend_ended (by simp [hends e he hin])
        · rw [List.filter_append]
          exact hfront.trans (view_append _ _)

end Window

end Konnectivity.Lib
