/-!
# Machines and their runs

Every concurrent component of this development is a machine: a state, a type
of actions, and a step function that either refuses an action in a state or
says which state follows. Whatever the scheduler, the network or a peer may
choose is part of the action, so that a machine is deterministic once the
actions are fixed and a run is simply a list of actions that can be executed.

`Reach` is the same notion read backwards, which is the direction invariants
are proved in. It carries a condition on steps, evaluated on the state before
the step: a theorem about all runs takes the trivial condition, a theorem
about the runs that avoid some branch names the branch.
-/

namespace Konnectivity.Lib

variable {S A : Type}

/-- Execute a list of actions, refusing as soon as one action is refused. -/
def run (step : S → A → Option S) : S → List A → Option S
  | s, [] => some s
  | s, a :: as =>
      match step s a with
      | none => none
      | some s' => run step s' as

/-- The states reached from `init` by steps that all meet `ok`. -/
inductive Reach (step : S → A → Option S) (ok : S → A → Prop) (init : S) : S → Prop
  | refl : Reach step ok init init
  | tail {s s' : S} {a : A} : Reach step ok init s → ok s a → step s a = some s' →
      Reach step ok init s'

/-- The condition that every step meets. -/
def anyStep (_ : S) (_ : A) : Prop := True

variable {step : S → A → Option S} {ok ok' : S → A → Prop} {init s s' : S}

/-- What holds initially and is kept by every admissible step holds of every
state reached. The step may use that its source was reached. -/
theorem Reach.invariant (I : S → Prop) (h0 : I init)
    (hs : ∀ s a s', Reach step ok init s → I s → ok s a → step s a = some s' → I s')
    (h : Reach step ok init s) : I s := by
  induction h with
  | refl => exact h0
  | tail hr hok hst ih => exact hs _ _ _ hr ih hok hst

theorem Reach.mono (hle : ∀ s a, ok s a → ok' s a) (h : Reach step ok init s) :
    Reach step ok' init s := by
  induction h with
  | refl => exact .refl
  | tail _ hok hst ih => exact .tail ih (hle _ _ hok) hst

theorem Reach.weaken (h : Reach step ok init s) : Reach step anyStep init s :=
  h.mono fun _ _ _ => trivial

theorem Reach.trans (h : Reach step ok init s) (h' : Reach step ok s s') :
    Reach step ok init s' := by
  induction h' with
  | refl => exact h
  | tail _ hok hst ih => exact .tail ih hok hst

theorem Reach.head {a : A} (hok : ok init a) (hst : step init a = some s)
    (h : Reach step ok s s') : Reach step ok init s' :=
  Reach.trans (.tail .refl hok hst) h

/-- Every step of an executed list of actions meets `ok`. -/
def runOk (step : S → A → Option S) (ok : S → A → Prop) : S → List A → Prop
  | _, [] => True
  | s, a :: as => ok s a ∧ ∀ s', step s a = some s' → runOk step ok s' as

instance decidableRunOk [∀ s a, Decidable (ok s a)] :
    ∀ (s : S) (as : List A), Decidable (runOk step ok s as)
  | _, [] => isTrue trivial
  | s, a :: as =>
      match hst : step s a with
      | none =>
          decidable_of_iff (ok s a)
            ⟨fun h => ⟨h, fun _ h' => by rw [hst] at h'; cases h'⟩, fun h => h.1⟩
      | some s' =>
          have := decidableRunOk s' as
          decidable_of_iff (ok s a ∧ runOk step ok s' as)
            ⟨fun h => ⟨h.1, fun _ h' => by rw [hst] at h'; cases h'; exact h.2⟩,
              fun h => ⟨h.1, h.2 s' hst⟩⟩

/-- The state at the end of an executed run is reached. -/
theorem reach_of_run : ∀ {as : List A} {s s' : S}, run step s as = some s' →
    runOk step ok s as → Reach step ok s s' := by
  intro as
  induction as with
  | nil =>
      intro s s' h _
      rw [run] at h
      injection h with h
      subst h
      exact .refl
  | cons a as ih =>
      intro s s' h hok
      rw [run] at h
      split at h
      · cases h
      · next mid hmid => exact .head hok.1 hmid (ih h (hok.2 mid hmid))

/-- An executed run whose end passes a test, by evaluation. -/
theorem run_any {as : List A} {p : S → Bool} (h : (run step s as).any p = true) :
    ∃ s', run step s as = some s' ∧ p s' = true := by
  cases hr : run step s as with
  | none =>
      rw [hr] at h
      cases h
  | some s' =>
      rw [hr] at h
      exact ⟨s', rfl, h⟩

theorem runOk_anyStep : ∀ {as : List A} {s : S}, runOk step anyStep s as := by
  intro as
  induction as with
  | nil => intro s; trivial
  | cons a as ih => intro s; exact ⟨trivial, fun _ _ => ih⟩

/-- The end of any executed run is reached, when steps are not constrained. -/
theorem reach_of_run_any {as : List A} (h : run step s as = some s') :
    Reach step anyStep s s' :=
  reach_of_run h runOk_anyStep

/-- A machine that a step makes bad exactly when the step breaks a condition,
and that stops then: a run ends well if and only if all its steps met the
condition. -/
theorem run_iff_runOk (bad : S → Prop)
    (hstep : ∀ s a s', step s a = some s' → ¬ bad s ∧ (bad s' ↔ ¬ ok s a)) :
    ∀ {as : List A} {s s' : S}, ¬ bad s → run step s as = some s' →
      (¬ bad s' ↔ runOk step ok s as) := by
  intro as
  induction as with
  | nil =>
      intro s s' hs h
      rw [run] at h
      injection h with h
      subst h
      exact iff_of_true hs trivial
  | cons a as ih =>
      intro s s' hs h
      rw [run] at h
      split at h
      · cases h
      · next mid hmid =>
          obtain ⟨-, hbad⟩ := hstep s a mid hmid
          by_cases hok : ok s a
          · have hmid' : ¬ bad mid := fun hb => hbad.mp hb hok
            rw [ih hmid' h]
            refine ⟨fun hr => ⟨hok, fun s₁ h₁ => ?_⟩, fun hr => hr.2 mid hmid⟩
            rw [hmid] at h₁
            injection h₁ with h₁
            exact h₁ ▸ hr
          · -- it has stopped, so this was the last step
            have hmid' : bad mid := hbad.mpr hok
            cases as with
            | nil =>
                rw [run] at h
                injection h with h
                exact iff_of_false (fun hn => hn (h ▸ hmid')) fun hr => hok hr.1
            | cons a' as =>
                rw [run] at h
                split at h
                · cases h
                · next next hnext => exact absurd hmid' (hstep mid a' next hnext).1

end Konnectivity.Lib
