import Mathlib.Algebra.Ring.Nat
import Mathlib.Data.List.Nodup
import Mathlib.Logic.Function.Basic
import Konnectivity.Lib.Machine

/-!
# Goroutines over shared state

A concurrent component is a shared state and a pool of goroutines, each of
which is the list of operations it still has to perform. An operation is one
thing other goroutines can come in between. A step takes the first operation
of one goroutine away and puts what follows from it in its place, possibly
starting another goroutine; or something arrives from outside, which may give
an idle goroutine something to do. What the scheduler and the environment
choose is part of the action.

The rules say how facts survive a step:

* `System.invariant`: an invariant of the shared state together with an
  assertion about every operation, each stable under all other operations;
* `Pool.Has`: some operation satisfies an assertion, as long as the one that
  goes is replaced;
* `Pool.Exclusive`: operations carry tokens, and no token is carried twice;
* `System.sequence`: what comes after an operation inside its goroutine;
* `Pool.load`: what the operations of a goroutine still weigh;
* `System.measured`: a record that operations write and none of them reads;
* `System.simulation`: every step is answered by steps of another machine, for
  which `System.Runs` has those of one goroutine.
-/

namespace Konnectivity.Lib

/-- The operations of a component. `exec` performs one operation of one
goroutine: the new shared state, the operations that come before the rest of
the goroutine, and a goroutine to start. `arrive` is what happens from
outside. A halted component makes no step. -/
structure System (S T O A C : Type) where
  exec : S → T → C → O → Option (S × List O × Option (T × List O))
  arrive : S → A → Option (S × Option (T × List O))
  halted : S → Bool

namespace System

structure State (S T O : Type) where
  shared : S
  threads : T → List O

inductive Action (T A C : Type) where
  | arrive (a : A)
  | run (t : T) (c : C)

variable {S T O A C : Type} [DecidableEq T]

/-- One step. A goroutine that is started is given its operations after those
it may still have from an earlier start. -/
def step (sys : System S T O A C) (s : State S T O) :
    Action T A C → Option (State S T O)
  | .run t c =>
      if sys.halted s.shared then none
      else
        match s.threads t with
        | [] => none
        | o :: rest =>
            match sys.exec s.shared t c o with
            | none => none
            | some (s₁, ops, none) => some ⟨s₁, Function.update s.threads t (ops ++ rest)⟩
            | some (s₁, ops, some (t', ops')) =>
                let threads := Function.update s.threads t (ops ++ rest)
                some ⟨s₁, Function.update threads t' (threads t' ++ ops')⟩
  | .arrive a =>
      if sys.halted s.shared then none
      else
        match sys.arrive s.shared a with
        | none => none
        | some (s₁, none) => some ⟨s₁, s.threads⟩
        | some (s₁, some (t, ops)) =>
            if (s.threads t).isEmpty then some ⟨s₁, Function.update s.threads t ops⟩ else none

/-- A condition on steps, given by one on operations and one on arrivals. -/
def Allowed (okExec : S → T → C → O → Prop) (okArrive : S → A → Prop) (s : State S T O) :
    Action T A C → Prop
  | .arrive a => okArrive s.shared a
  | .run t c => ∀ o rest, s.threads t = o :: rest → okExec s.shared t c o

instance decidableAllowed {okExec : S → T → C → O → Prop} {okArrive : S → A → Prop}
    [∀ s t c o, Decidable (okExec s t c o)] [∀ s a, Decidable (okArrive s a)]
    (s : State S T O) : ∀ a : Action T A C, Decidable (Allowed okExec okArrive s a)
  | .arrive a => inferInstanceAs (Decidable (okArrive s.shared a))
  | .run t c =>
      match h : s.threads t with
      | [] => isTrue fun _ _ h' => by rw [h] at h'; cases h'
      | o :: rest =>
          decidable_of_iff (okExec s.shared t c o)
            ⟨fun ho _ _ h' => by rw [h] at h'; cases h'; exact ho, fun ho => ho o rest h⟩

/-- The condition that every step meets. -/
abbrev unrestricted : State S T O → Action T A C → Prop :=
  Allowed (fun _ _ _ _ => True) fun _ _ => True

/-- What a step can be. -/
theorem step_cases {sys : System S T O A C} {s s' : State S T O} {a : Action T A C}
    (h : sys.step s a = some s') :
    (∃ t c o rest s₁ ops, a = .run t c ∧ s.threads t = o :: rest ∧
      sys.exec s.shared t c o = some (s₁, ops, none) ∧
      s' = ⟨s₁, Function.update s.threads t (ops ++ rest)⟩) ∨
    (∃ t c o rest s₁ ops t' ops', a = .run t c ∧ s.threads t = o :: rest ∧
      sys.exec s.shared t c o = some (s₁, ops, some (t', ops')) ∧
      s' = ⟨s₁, Function.update (Function.update s.threads t (ops ++ rest)) t'
        (Function.update s.threads t (ops ++ rest) t' ++ ops')⟩) ∨
    (∃ x s₁, a = .arrive x ∧ sys.arrive s.shared x = some (s₁, none) ∧ s' = ⟨s₁, s.threads⟩) ∨
    (∃ x s₁ t ops, a = .arrive x ∧ sys.arrive s.shared x = some (s₁, some (t, ops)) ∧
      s.threads t = [] ∧ s' = ⟨s₁, Function.update s.threads t ops⟩) := by
  cases a with
  | run t c =>
      simp only [step] at h
      split at h
      · cases h
      · split at h
        · cases h
        · next o rest ht =>
            split at h
            · cases h
            · next s₁ ops hex =>
                injection h with h
                exact Or.inl ⟨t, c, o, rest, s₁, ops, rfl, ht, hex, h.symm⟩
            · next s₁ ops t' ops' hex =>
                injection h with h
                exact Or.inr (Or.inl ⟨t, c, o, rest, s₁, ops, t', ops', rfl, ht, hex, h.symm⟩)
  | arrive x =>
      simp only [step] at h
      split at h
      · cases h
      · split at h
        · cases h
        · next s₁ harr =>
            injection h with h
            exact Or.inr (Or.inr (Or.inl ⟨x, s₁, rfl, harr, h.symm⟩))
        · next s₁ t ops harr =>
            split at h
            · next ht =>
                injection h with h
                exact Or.inr (Or.inr (Or.inr
                  ⟨x, s₁, t, ops, rfl, harr, List.isEmpty_iff.mp ht, h.symm⟩))
            · cases h

/-- The goroutine can make its next step when the environment chooses so. -/
def CanStep (sys : System S T O A C) (s : State S T O) (t : T) (c : C) : Prop :=
  ∃ s', sys.step s (.run t c) = some s'

theorem canStep_of_exec {sys : System S T O A C} {s : State S T O} {t : T} {c : C} {o : O}
    {rest : List O} (hhalt : sys.halted s.shared = false) (ht : s.threads t = o :: rest)
    (hex : (sys.exec s.shared t c o).isSome = true) : sys.CanStep s t c := by
  obtain ⟨⟨s₁, ops, start⟩, hex⟩ := Option.isSome_iff_exists.mp hex
  refine Option.isSome_iff_exists.mp ?_
  cases start <;> simp [step, hhalt, ht, hex]

theorem step_halted {sys : System S T O A C} {s s' : State S T O} {a : Action T A C}
    (h : sys.step s a = some s') : sys.halted s.shared = false := by
  cases a <;> simp only [step] at h <;> split at h <;> simp_all

/-- A component that an operation or an arrival makes bad exactly when it
breaks its condition, and that halts then. -/
theorem step_bad_iff {sys : System S T O A C} {okExec : S → T → C → O → Prop}
    {okArrive : S → A → Prop} (bad : S → Prop) (hhalt : ∀ s, bad s → sys.halted s = true)
    (hexec : ∀ {s t c o s₁ ops start}, sys.halted s = false →
      sys.exec s t c o = some (s₁, ops, start) → (bad s₁ ↔ ¬ okExec s t c o))
    (harrive : ∀ {s a s₁ start}, sys.halted s = false → sys.arrive s a = some (s₁, start) →
      (bad s₁ ↔ ¬ okArrive s a))
    (s : State S T O) (a : Action T A C) (s' : State S T O) (h : sys.step s a = some s') :
    ¬ bad s.shared ∧ (bad s'.shared ↔ ¬ Allowed okExec okArrive s a) := by
  have hrun := step_halted h
  refine ⟨fun hb => ?_, ?_⟩
  · rw [hhalt _ hb] at hrun
    cases hrun
  have hallowed : ∀ {t c o rest}, s.threads t = o :: rest →
      (Allowed okExec okArrive s (.run t c) ↔ okExec s.shared t c o) := by
    intro t c o rest ht
    refine ⟨fun hok => hok o rest ht, fun hok o' rest' ht' => ?_⟩
    rw [ht] at ht'
    injection ht' with ho _
    exact ho ▸ hok
  rcases step_cases h with ⟨t, c, o, rest, s₁, ops, rfl, ht, hex, rfl⟩ |
    ⟨t, c, o, rest, s₁, ops, t', ops', rfl, ht, hex, rfl⟩ | ⟨x, s₁, rfl, harr, rfl⟩ |
    ⟨x, s₁, t, ops, rfl, harr, ht, rfl⟩
  · rw [hallowed ht]
    exact hexec hrun hex
  · rw [hallowed ht]
    exact hexec hrun hex
  · exact harrive hrun harr
  · exact harrive hrun harr

end System

namespace Pool

variable {T O K : Type} [DecidableEq T] {pool : T → List O} {t t' : T} {o : O}
  {ops rest : List O}

/-! ## Assertions -/

/-- Every operation of the pool satisfies the assertion. -/
def All (P : T → O → Prop) (pool : T → List O) : Prop :=
  ∀ t, ∀ o ∈ pool t, P t o

omit [DecidableEq T] in
theorem All.mono {P Q : T → O → Prop} (h : All P pool) (hle : ∀ t o, P t o → Q t o) :
    All Q pool :=
  fun t o ho => hle t o (h t o ho)

theorem All.push {P : T → O → Prop} (h : All P pool) (ht : pool t = o :: rest)
    (hops : ∀ o' ∈ ops, P t o') : All P (Function.update pool t (ops ++ rest)) := by
  intro x o' ho'
  by_cases hx : x = t
  · subst hx
    rw [Function.update_self] at ho'
    rcases List.mem_append.mp ho' with ho' | ho'
    · exact hops o' ho'
    · exact h x o' (by rw [ht]; exact List.mem_cons_of_mem _ ho')
  · rw [Function.update_of_ne hx] at ho'
    exact h x o' ho'

theorem All.start {P : T → O → Prop} (h : All P pool) (hops : ∀ o' ∈ ops, P t o') :
    All P (Function.update pool t ops) := by
  intro x o' ho'
  by_cases hx : x = t
  · subst hx
    rw [Function.update_self] at ho'
    exact hops o' ho'
  · rw [Function.update_of_ne hx] at ho'
    exact h x o' ho'

theorem All.spawn {P : T → O → Prop} (h : All P pool) (hops : ∀ o' ∈ ops, P t o') :
    All P (Function.update pool t (pool t ++ ops)) := by
  refine h.start fun o' ho' => ?_
  rcases List.mem_append.mp ho' with ho' | ho'
  · exact h t o' ho'
  · exact hops o' ho'

/-! ## Membership -/

/-- An operation of the pool is the one performed, or stays. -/
theorem mem_push {x : T} {o' : O} (h : o' ∈ pool x) (ht : pool t = o :: rest) :
    (x = t ∧ o' = o) ∨ o' ∈ Function.update pool t (ops ++ rest) x := by
  by_cases hx : x = t
  · subst hx
    rw [ht] at h
    rcases List.mem_cons.mp h with rfl | h
    · exact Or.inl ⟨rfl, rfl⟩
    · exact Or.inr (by rw [Function.update_self]; exact List.mem_append_right _ h)
  · exact Or.inr (by rw [Function.update_of_ne hx]; exact h)

/-- An operation of the pool after a step is new, or was there. -/
theorem mem_of_push {x : T} {o' : O} (ht : pool t = o :: rest)
    (h : o' ∈ Function.update pool t (ops ++ rest) x) :
    (x = t ∧ o' ∈ ops) ∨ o' ∈ pool x := by
  by_cases hx : x = t
  · subst hx
    rw [Function.update_self] at h
    rcases List.mem_append.mp h with h | h
    · exact Or.inl ⟨rfl, h⟩
    · exact Or.inr (by rw [ht]; exact List.mem_cons_of_mem _ h)
  · rw [Function.update_of_ne hx] at h
    exact Or.inr h

/-- The pool after an arrival: as before, or with an idle goroutine started. -/
def Arrived (pool : T → List O) (start : Option (T × List O)) (pool' : T → List O) : Prop :=
  match start with
  | none => pool' = pool
  | some (t, ops) => pool t = [] ∧ pool' = Function.update pool t ops

theorem Arrived.mem {start : Option (T × List O)} {pool' : T → List O}
    (h : Arrived pool start pool') {x : T} {o : O} (ho : o ∈ pool x) : o ∈ pool' x := by
  cases start with
  | none =>
      rw [show pool' = pool from h]
      exact ho
  | some st =>
      obtain ⟨ht, rfl⟩ := h
      by_cases hx : x = st.1
      · rw [hx, ht] at ho
        cases ho
      · rw [Function.update_of_ne hx]
        exact ho

theorem Arrived.of_mem {start : Option (T × List O)} {pool' : T → List O}
    (h : Arrived pool start pool') {x : T} {o : O} (ho : o ∈ pool' x) :
    o ∈ pool x ∨ ∃ ops, start = some (x, ops) ∧ o ∈ ops := by
  cases start with
  | none =>
      rw [show pool' = pool from h] at ho
      exact Or.inl ho
  | some st =>
      obtain ⟨ht, rfl⟩ := h
      by_cases hx : x = st.1
      · subst hx
        rw [Function.update_self] at ho
        exact Or.inr ⟨st.2, rfl, ho⟩
      · rw [Function.update_of_ne hx] at ho
        exact Or.inl ho

theorem Arrived.started {pool' : T → List O} (h : Arrived pool (some (t, ops)) pool') :
    pool' t = ops := by
  rw [h.2, Function.update_self]

/-- The pool after an operation that may have started a goroutine. -/
def spawn (pool : T → List O) : Option (T × List O) → T → List O
  | none => pool
  | some (t, ops) => Function.update pool t (pool t ++ ops)

theorem spawn_of_ne {start : Option (T × List O)} {x : T} (h : ∀ ops, start ≠ some (x, ops)) :
    spawn pool start x = pool x := by
  cases start with
  | none => rfl
  | some st => exact Function.update_of_ne (fun hx => h st.2 (by rw [hx])) _ _

theorem mem_of_spawn {start : Option (T × List O)} {x : T} (h : o ∈ spawn pool start x) :
    o ∈ pool x ∨ ∃ ops, start = some (x, ops) ∧ o ∈ ops := by
  cases start with
  | none => exact Or.inl h
  | some st =>
      by_cases hx : x = st.1
      · subst hx
        rw [spawn, Function.update_self] at h
        rcases List.mem_append.mp h with h | h
        · exact Or.inl h
        · exact Or.inr ⟨st.2, rfl, h⟩
      · rw [spawn, Function.update_of_ne hx] at h
        exact Or.inl h

theorem mem_spawn {start : Option (T × List O)} {x : T} (h : o ∈ pool x) :
    o ∈ spawn pool start x := by
  cases start with
  | none => exact h
  | some st =>
      by_cases hx : x = st.1
      · subst hx
        rw [spawn, Function.update_self]
        exact List.mem_append_left _ h
      · rw [spawn, Function.update_of_ne hx]
        exact h

/-! ## Obligations -/

/-- Some operation of the pool satisfies the assertion. -/
def Has (P : T → O → Prop) (pool : T → List O) : Prop :=
  ∃ t, ∃ o ∈ pool t, P t o

theorem Has.push {P : T → O → Prop} (h : Has P pool) (ht : pool t = o :: rest) :
    P t o ∨ Has P (Function.update pool t (ops ++ rest)) := by
  obtain ⟨x, o', ho', hp⟩ := h
  by_cases hx : x = t
  · subst hx
    rw [ht] at ho'
    rcases List.mem_cons.mp ho' with rfl | ho'
    · exact Or.inl hp
    · exact Or.inr ⟨x, o', by rw [Function.update_self]; exact List.mem_append_right _ ho', hp⟩
  · exact Or.inr ⟨x, o', by rw [Function.update_of_ne hx]; exact ho', hp⟩

theorem Has.pushed {P : T → O → Prop} {o' : O} (ho' : o' ∈ ops) (hp : P t o') :
    Has P (Function.update pool t (ops ++ rest)) :=
  ⟨t, o', by rw [Function.update_self]; exact List.mem_append_left _ ho', hp⟩

theorem Has.start {P : T → O → Prop} (h : Has P pool) (ht : pool t = []) :
    Has P (Function.update pool t ops) := by
  obtain ⟨x, o', ho', hp⟩ := h
  have hx : x ≠ t := by
    rintro rfl
    rw [ht] at ho'
    cases ho'
  exact ⟨x, o', by rw [Function.update_of_ne hx]; exact ho', hp⟩

theorem Has.started {P : T → O → Prop} {o' : O} (ho' : o' ∈ ops) (hp : P t o') :
    Has P (Function.update pool t ops) :=
  ⟨t, o', by rw [Function.update_self]; exact ho', hp⟩

theorem Has.spawn {P : T → O → Prop} (h : Has P pool) :
    Has P (Function.update pool t (pool t ++ ops)) := by
  obtain ⟨x, o', ho', hp⟩ := h
  by_cases hx : x = t
  · subst hx
    exact ⟨x, o', by rw [Function.update_self]; exact List.mem_append_left _ ho', hp⟩
  · exact ⟨x, o', by rw [Function.update_of_ne hx]; exact ho', hp⟩

/-! ## Tokens -/

/-- The token is carried by some operation. -/
def Held (tok : O → List K) (pool : T → List O) (k : K) : Prop :=
  Has (fun _ o => k ∈ tok o) pool

/-- No token is carried twice. -/
structure Exclusive (tok : O → List K) (pool : T → List O) : Prop where
  nodup : ∀ t, ((pool t).flatMap tok).Nodup
  disjoint : ∀ t t', t ≠ t' → List.Disjoint ((pool t).flatMap tok) ((pool t').flatMap tok)

omit [DecidableEq T] in
theorem held_iff {tok : O → List K} {k : K} :
    Held tok pool k ↔ ∃ t, k ∈ (pool t).flatMap tok := by
  constructor
  · rintro ⟨t, o, ho, hk⟩
    exact ⟨t, List.mem_flatMap.mpr ⟨o, ho, hk⟩⟩
  · rintro ⟨t, hk⟩
    obtain ⟨o, ho, hk⟩ := List.mem_flatMap.mp hk
    exact ⟨t, o, ho, hk⟩

/-- Replace the first operation: the tokens of what comes in its place are its
own or were free. -/
theorem Exclusive.push {tok : O → List K} (h : Exclusive tok pool) (ht : pool t = o :: rest)
    (hnd : (ops.flatMap tok).Nodup)
    (hfree : ∀ k ∈ ops.flatMap tok, k ∈ tok o ∨ ¬ Held tok pool k) :
    Exclusive tok (Function.update pool t (ops ++ rest)) := by
  have hown := h.nodup t
  rw [ht, List.flatMap_cons, List.nodup_append'] at hown
  obtain ⟨-, hrest, hsep⟩ := hown
  -- A token of the new operations is neither in the rest nor in another goroutine.
  have hnew : ∀ k ∈ ops.flatMap tok, k ∉ rest.flatMap tok ∧
      ∀ x, x ≠ t → k ∉ (pool x).flatMap tok := by
    intro k hk
    rcases hfree k hk with hko | hfr
    · refine ⟨fun hr => hsep hko hr, fun x hx hkx => ?_⟩
      exact h.disjoint x t hx hkx (by rw [ht, List.flatMap_cons]; exact List.mem_append_left _ hko)
    · refine ⟨fun hr => hfr (held_iff.mpr ⟨t, ?_⟩), fun x _ hkx => hfr (held_iff.mpr ⟨x, hkx⟩)⟩
      rw [ht, List.flatMap_cons]
      exact List.mem_append_right _ hr
  have hrestOther : ∀ x, x ≠ t → List.Disjoint (rest.flatMap tok) ((pool x).flatMap tok) := by
    intro x hx k hk hkx
    exact h.disjoint t x (Ne.symm hx)
      (by rw [ht, List.flatMap_cons]; exact List.mem_append_right _ hk) hkx
  have hother : ∀ x, x ≠ t → List.Disjoint ((ops ++ rest).flatMap tok) ((pool x).flatMap tok) := by
    intro x hx k hk hkx
    rw [List.flatMap_append] at hk
    rcases List.mem_append.mp hk with hk | hk
    · exact (hnew k hk).2 x hx hkx
    · exact hrestOther x hx hk hkx
  refine ⟨fun x => ?_, fun x y hxy => ?_⟩
  · by_cases hx : x = t
    · subst hx
      rw [Function.update_self, List.flatMap_append, List.nodup_append']
      exact ⟨hnd, hrest, fun k hk hr => (hnew k hk).1 hr⟩
    · rw [Function.update_of_ne hx]
      exact h.nodup x
  · by_cases hx : x = t
    · subst hx
      rw [Function.update_self, Function.update_of_ne (Ne.symm hxy)]
      exact hother y (Ne.symm hxy)
    · rw [Function.update_of_ne hx]
      by_cases hy : y = t
      · subst hy
        rw [Function.update_self]
        exact fun k hk hk' => hother x hx hk' hk
      · rw [Function.update_of_ne hy]
        exact h.disjoint x y hxy

/-- Start an idle goroutine with tokens that were free. -/
theorem Exclusive.start {tok : O → List K} (h : Exclusive tok pool) (ht : pool t = [])
    (hnd : (ops.flatMap tok).Nodup) (hfree : ∀ k ∈ ops.flatMap tok, ¬ Held tok pool k) :
    Exclusive tok (Function.update pool t ops) := by
  refine ⟨fun x => ?_, fun x y hxy => ?_⟩
  · by_cases hx : x = t
    · subst hx
      rw [Function.update_self]
      exact hnd
    · rw [Function.update_of_ne hx]
      exact h.nodup x
  · by_cases hx : x = t
    · subst hx
      rw [Function.update_self, Function.update_of_ne (Ne.symm hxy)]
      exact fun k hk hy => hfree k hk (held_iff.mpr ⟨y, hy⟩)
    · rw [Function.update_of_ne hx]
      by_cases hy : y = t
      · subst hy
        rw [Function.update_self]
        exact fun k hk hy' => hfree k hy' (held_iff.mpr ⟨x, hk⟩)
      · rw [Function.update_of_ne hy]
        exact h.disjoint x y hxy

/-- The tokens of a goroutine to be started. -/
def startTokens (tok : O → List K) : Option (T × List O) → List K
  | none => []
  | some (_, ops) => ops.flatMap tok

theorem held_spawn (tok : O → List K) (pool : T → List O) (start : Option (T × List O)) (k : K) :
    Held tok (spawn pool start) k ↔ k ∈ startTokens tok start ∨ Held tok pool k := by
  constructor
  · rintro ⟨x, o, ho, hk⟩
    rcases mem_of_spawn ho with hin | ⟨ops', rfl, hin⟩
    · exact Or.inr ⟨x, o, hin, hk⟩
    · exact Or.inl (List.mem_flatMap.mpr ⟨o, hin, hk⟩)
  · rintro (hk | ⟨x, o, ho, hk⟩)
    · cases start with
      | none => cases hk
      | some st =>
          obtain ⟨o, ho, hk⟩ := List.mem_flatMap.mp hk
          refine ⟨st.1, o, ?_, hk⟩
          rw [Pool.spawn, Function.update_self]
          exact List.mem_append_right _ ho
    · exact ⟨x, o, mem_spawn ho, hk⟩

/-- Start a goroutine with tokens that were free. -/
theorem Exclusive.spawn_free {tok : O → List K} (h : Exclusive tok pool)
    (start : Option (T × List O)) (hnd : (startTokens tok start).Nodup)
    (hfree : ∀ k ∈ startTokens tok start, ¬ Held tok pool k) :
    Exclusive tok (spawn pool start) := by
  cases start with
  | none => exact h
  | some st =>
      obtain ⟨t', ops'⟩ := st
      have hat : ∀ x, x ≠ t' → (spawn pool (some (t', ops')) x).flatMap tok =
          (pool x).flatMap tok := by
        intro x hx
        rw [spawn_of_ne fun ops h => hx (congrArg Prod.fst (Option.some.inj h)).symm]
      have hself : (spawn pool (some (t', ops')) t').flatMap tok =
          (pool t').flatMap tok ++ ops'.flatMap tok := by
        rw [Pool.spawn, Function.update_self, List.flatMap_append]
      have hsep : ∀ x, List.Disjoint (ops'.flatMap tok) ((pool x).flatMap tok) :=
        fun x k hk hx => hfree k hk (held_iff.mpr ⟨x, hx⟩)
      have hother : ∀ x, x ≠ t' → List.Disjoint ((spawn pool (some (t', ops')) t').flatMap tok)
          ((pool x).flatMap tok) := by
        intro x hx
        rw [hself, List.disjoint_append_left]
        exact ⟨h.disjoint t' x (Ne.symm hx), hsep x⟩
      refine ⟨fun x => ?_, fun x y hxy => ?_⟩
      · by_cases hx : x = t'
        · subst hx
          rw [hself, List.nodup_append']
          exact ⟨h.nodup x, hnd, fun k hk hk' => hsep x hk' hk⟩
        · rw [hat x hx]
          exact h.nodup x
      · by_cases hx : x = t'
        · subst hx
          rw [hat y (Ne.symm hxy)]
          exact hother y (Ne.symm hxy)
        · rw [hat x hx]
          by_cases hy : y = t'
          · subst hy
            exact fun k hk hk' => hother x hx hk' hk
          · rw [hat y hy]
            exact h.disjoint x y hxy

/-- Start a goroutine that carries no token. -/
theorem Exclusive.spawn {tok : O → List K} (h : Exclusive tok pool)
    (hops : ops.flatMap tok = []) : Exclusive tok (Function.update pool t (pool t ++ ops)) := by
  have hsame : ∀ x, (Function.update pool t (pool t ++ ops) x).flatMap tok =
      (pool x).flatMap tok := by
    intro x
    by_cases hx : x = t
    · subst hx
      rw [Function.update_self, List.flatMap_append, hops, List.append_nil]
    · rw [Function.update_of_ne hx]
  refine ⟨fun x => ?_, fun x y hxy => ?_⟩
  · rw [hsame]
    exact h.nodup x
  · rw [hsame, hsame]
    exact h.disjoint x y hxy

/-- Once the operation with the token is taken away, the token is free unless
what comes in its place carries it. -/
theorem Exclusive.released {tok : O → List K} (h : Exclusive tok pool) (ht : pool t = o :: rest)
    {k : K} (hk : k ∈ tok o) (hops : k ∉ ops.flatMap tok) :
    ¬ Held tok (Function.update pool t (ops ++ rest)) k := by
  rw [held_iff]
  rintro ⟨x, hx⟩
  have hhead : k ∈ (pool t).flatMap tok := by
    rw [ht, List.flatMap_cons]
    exact List.mem_append_left _ hk
  by_cases hxt : x = t
  · subst hxt
    rw [Function.update_self, List.flatMap_append] at hx
    have hown := h.nodup x
    rw [ht, List.flatMap_cons, List.nodup_append'] at hown
    exact hown.2.2 hk ((List.mem_append.mp hx).resolve_left hops)
  · rw [Function.update_of_ne hxt] at hx
    exact h.disjoint x t hxt hx hhead

/-- A token carried after a step is carried by the new operations or was
carried before. -/
theorem Held.of_push {tok : O → List K} {k : K} (ht : pool t = o :: rest)
    (h : Held tok (Function.update pool t (ops ++ rest)) k) :
    k ∈ ops.flatMap tok ∨ Held tok pool k := by
  obtain ⟨x, hx⟩ := held_iff.mp h
  by_cases hxt : x = t
  · subst hxt
    rw [Function.update_self, List.flatMap_append] at hx
    rcases List.mem_append.mp hx with hx | hx
    · exact Or.inl hx
    · refine Or.inr (held_iff.mpr ⟨x, ?_⟩)
      rw [ht, List.flatMap_cons]
      exact List.mem_append_right _ hx
  · rw [Function.update_of_ne hxt] at hx
    exact Or.inr (held_iff.mpr ⟨x, hx⟩)

/-- The tokens carried after an operation: its own are gone, and those are
there of what comes in its place and of the goroutine it starts. -/
theorem Exclusive.held_step {tok : O → List K} (h : Exclusive tok pool) (ht : pool t = o :: rest)
    (ops : List O) (start : Option (T × List O)) (k : K) :
    Held tok (Pool.spawn (Function.update pool t (ops ++ rest)) start) k ↔
      k ∈ ops.flatMap tok ++ startTokens tok start ∨ (Held tok pool k ∧ k ∉ tok o) := by
  constructor
  · rintro ⟨x, o', ho', hk⟩
    rcases mem_of_spawn ho' with hin | ⟨ops', rfl, hin⟩
    · by_cases hops : k ∈ ops.flatMap tok
      · exact Or.inl (List.mem_append_left _ hops)
      · rcases mem_of_push ht hin with ⟨-, hin'⟩ | hin'
        · exact absurd (List.mem_flatMap.mpr ⟨o', hin', hk⟩) hops
        · exact Or.inr ⟨⟨x, o', hin', hk⟩, fun ho => h.released ht ho hops ⟨x, o', hin, hk⟩⟩
    · exact Or.inl (List.mem_append_right _ (List.mem_flatMap.mpr ⟨o', hin, hk⟩))
  · rintro (hk | ⟨⟨x, o', ho', hk⟩, ho⟩)
    · rcases List.mem_append.mp hk with hk | hk
      · obtain ⟨o', ho', hk⟩ := List.mem_flatMap.mp hk
        refine ⟨t, o', mem_spawn ?_, hk⟩
        rw [Function.update_self]
        exact List.mem_append_left _ ho'
      · cases start with
        | none => cases hk
        | some st =>
            obtain ⟨o', ho', hk⟩ := List.mem_flatMap.mp hk
            refine ⟨st.1, o', ?_, hk⟩
            rw [Pool.spawn, Function.update_self]
            exact List.mem_append_right _ ho'
    · rcases mem_push ho' ht with ⟨-, rfl⟩ | hin
      · exact absurd hk ho
      · exact ⟨x, o', mem_spawn hin, hk⟩

theorem Exclusive.step {tok : O → List K} (h : Exclusive tok pool) (ht : pool t = o :: rest)
    (start : Option (T × List O)) (hnd : (ops.flatMap tok ++ startTokens tok start).Nodup)
    (hfree : ∀ k ∈ ops.flatMap tok ++ startTokens tok start, k ∈ tok o ∨ ¬ Held tok pool k) :
    Exclusive tok (Pool.spawn (Function.update pool t (ops ++ rest)) start) := by
  rw [List.nodup_append'] at hnd
  obtain ⟨hnd1, hnd2, hsep⟩ := hnd
  have hpush := h.push ht hnd1 fun k hk => hfree k (List.mem_append_left _ hk)
  refine hpush.spawn_free start hnd2 fun k hk hheld => ?_
  by_cases ho : k ∈ tok o
  · exact h.released ht ho (fun hops => hsep hops hk) hheld
  · refine ((hfree k (List.mem_append_right _ hk)).resolve_left ho) ?_
    exact (Held.of_push ht hheld).resolve_left fun hops => hsep hops hk

/-- The assertions of the operations that stay are kept, if they are kept by
those with other tokens. -/
theorem Exclusive.all_push {tok : O → List K} (h : Exclusive tok pool) (ht : pool t = o :: rest)
    {P Q : T → O → Prop} (hP : All P pool)
    (hstable : ∀ x o', (∀ k ∈ tok o', Held tok pool k ∧ k ∉ tok o) → P x o' → Q x o')
    (hops : ∀ o' ∈ ops, Q t o') : All Q (Function.update pool t (ops ++ rest)) := by
  have hown := h.nodup t
  rw [ht, List.flatMap_cons, List.nodup_append'] at hown
  obtain ⟨-, -, hsep⟩ := hown
  have hheld : ∀ {x o'}, o' ∈ pool x → ∀ k ∈ tok o', Held tok pool k :=
    fun ho' k hk => ⟨_, _, ho', hk⟩
  intro x o' ho'
  by_cases hx : x = t
  · subst hx
    rw [Function.update_self] at ho'
    rcases List.mem_append.mp ho' with ho' | ho'
    · exact hops o' ho'
    · have hin : o' ∈ pool x := by
        rw [ht]
        exact List.mem_cons_of_mem _ ho'
      exact hstable x o' (fun k hk => ⟨hheld hin k hk, fun hko =>
        hsep hko (List.mem_flatMap.mpr ⟨o', ho', hk⟩)⟩) (hP x o' hin)
  · rw [Function.update_of_ne hx] at ho'
    refine hstable x o' (fun k hk => ⟨hheld ho' k hk, fun hko => ?_⟩) (hP x o' ho')
    refine h.disjoint x t hx (List.mem_flatMap.mpr ⟨o', ho', hk⟩) ?_
    rw [ht, List.flatMap_cons]
    exact List.mem_append_left _ hko

theorem Held.of_spawn {tok : O → List K} {k : K} (hops : ops.flatMap tok = [])
    (h : Held tok (Function.update pool t (pool t ++ ops)) k) : Held tok pool k := by
  obtain ⟨x, hx⟩ := held_iff.mp h
  by_cases hxt : x = t
  · subst hxt
    rw [Function.update_self, List.flatMap_append, hops, List.append_nil] at hx
    exact held_iff.mpr ⟨x, hx⟩
  · rw [Function.update_of_ne hxt] at hx
    exact held_iff.mpr ⟨x, hx⟩

theorem Held.of_start {tok : O → List K} {k : K}
    (h : Held tok (Function.update pool t ops) k) :
    k ∈ ops.flatMap tok ∨ Held tok pool k := by
  obtain ⟨x, hx⟩ := held_iff.mp h
  by_cases hxt : x = t
  · subst hxt
    rw [Function.update_self] at hx
    exact Or.inl hx
  · rw [Function.update_of_ne hxt] at hx
    exact Or.inr (held_iff.mpr ⟨x, hx⟩)

/-! ## The order inside a goroutine -/

/-- Every operation of the list is related to the operations after it. -/
def Each (R : O → List O → Prop) : List O → Prop
  | [] => True
  | o :: rest => R o rest ∧ Each R rest

omit [DecidableEq T] in
theorem Each.append {R : O → List O → Prop} {rest : List O} (h' : Each R rest) :
    ∀ {ops : List O}, Each (fun o l => R o (l ++ rest)) ops → Each R (ops ++ rest)
  | [], _ => h'
  | _ :: _, h => ⟨h.1, Each.append h' h.2⟩

omit [DecidableEq T] in
theorem Each.mono {R R' : O → List O → Prop} (hle : ∀ o l, R o l → R' o l) :
    ∀ {ops : List O}, Each R ops → Each R' ops
  | [], _ => trivial
  | _ :: _, h => ⟨hle _ _ h.1, Each.mono hle h.2⟩

omit [DecidableEq T] in
theorem Each.mem {R : O → List O → Prop} {o : O} :
    ∀ {ops : List O}, Each R ops → o ∈ ops → ∃ pre post, ops = pre ++ o :: post ∧ R o post
  | x :: rest, h, ho => by
      rcases List.mem_cons.mp ho with rfl | ho
      · exact ⟨[], rest, rfl, h.1⟩
      · obtain ⟨pre, post, heq, hr⟩ := Each.mem h.2 ho
        exact ⟨x :: pre, post, by rw [heq, List.cons_append], hr⟩

omit [DecidableEq T] in
theorem Each.of_append {R : O → List O → Prop} {post : List O} :
    ∀ {pre : List O}, Each R (pre ++ post) → Each R post
  | [], h => h
  | _ :: _, h => Each.of_append h.2

omit [DecidableEq T] in
theorem Each.at_append {R : O → List O → Prop} {o : O} {pre post ops : List O} (h : Each R ops)
    (heq : ops = pre ++ o :: post) : R o post := by
  subst heq
  exact h.of_append.1

/-- The weight of what a goroutine still has to do. -/
def load (w : O → Nat) (ops : List O) : Nat := (ops.map w).sum

theorem load_append (w : O → Nat) (ops ops' : List O) :
    load w (ops ++ ops') = load w ops + load w ops' := by
  unfold load
  rw [List.map_append, List.sum_append]

theorem load_eq_zero {w : O → Nat} : ∀ {ops : List O}, (∀ o ∈ ops, w o = 0) → load w ops = 0
  | [], _ => rfl
  | o :: ops, h => by
      have hrest := load_eq_zero fun o' ho' => h o' (List.mem_cons_of_mem _ ho')
      have hcons : load w (o :: ops) = w o + load w ops := List.sum_cons
      rw [hcons, hrest, h o List.mem_cons_self]

/-- A step exchanges the weight of one operation for that of the operations it
brings in; a goroutine it starts weighs nothing. -/
theorem load_push {w : O → Nat} {start : Option (T × List O)} (ht : pool t = o :: rest)
    (hstart : ∀ t' ops', start = some (t', ops') → load w ops' = 0) (x : T) :
    load w (spawn (Function.update pool t (ops ++ rest)) start x) + (if x = t then w o else 0) =
      load w (pool x) + if x = t then load w ops else 0 := by
  have hspawn : ∀ pool' : T → List O, load w (spawn pool' start x) = load w (pool' x) := by
    intro pool'
    cases start with
    | none => rfl
    | some st =>
        by_cases hx : x = st.1
        · subst hx
          rw [spawn, Function.update_self, load_append, hstart st.1 st.2 rfl, Nat.add_zero]
        · rw [spawn, Function.update_of_ne hx]
  rw [hspawn]
  by_cases hx : x = t
  · subst hx
    rw [Function.update_self, load_append, ht, if_pos rfl, if_pos rfl]
    have hcons : load w (o :: rest) = w o + load w rest := List.sum_cons
    omega
  · rw [Function.update_of_ne hx, if_neg hx, if_neg hx]

theorem Arrived.load {w : O → Nat} {start : Option (T × List O)} {pool' : T → List O}
    (h : Arrived pool start pool')
    (hstart : ∀ t' ops', start = some (t', ops') → load w ops' = 0) (x : T) :
    load w (pool' x) = load w (pool x) := by
  cases start with
  | none => rw [show pool' = pool from h]
  | some st =>
      obtain ⟨ht, rfl⟩ := h
      by_cases hx : x = st.1
      · subst hx
        rw [Function.update_self, hstart st.1 st.2 rfl, ht]
        rfl
      · rw [Function.update_of_ne hx]

end Pool

namespace System

variable {S T O A C : Type} [DecidableEq T] {sys : System S T O A C} {init s : State S T O}
  {okExec : S → T → C → O → Prop} {okArrive : S → A → Prop}

/-- A run under any condition is a run. -/
theorem reach_allowed {ok : State S T O → Action T A C → Prop} (h : Reach sys.step ok init s) :
    Reach sys.step unrestricted init s := by
  refine h.mono fun s a _ => ?_
  cases a with
  | run t c => exact fun _ _ _ => trivial
  | arrive x => trivial

/-- The assertions `P` hold of the operations of a goroutine to be started. -/
def StartOk (P : T → O → Prop) : Option (T × List O) → Prop
  | none => True
  | some (t, ops) => ∀ o ∈ ops, P t o

/-- Assertions about operations and an invariant of the shared state, proved
together. Every operation and every arrival keeps the invariant, keeps the
assertions of the operations it does not touch, and establishes those of the
operations it brings in. -/
theorem invariant (G : S → Prop) (P : S → T → O → Prop) (h0 : G init.shared)
    (hP0 : Pool.All (P init.shared) init.threads)
    (harrive : ∀ (s : State S T O) (a : A) (s₁ : S) (start : Option (T × List O)),
      Reach sys.step (Allowed okExec okArrive) init s → G s.shared → okArrive s.shared a →
      sys.arrive s.shared a = some (s₁, start) →
      G s₁ ∧ (∀ t o, P s.shared t o → P s₁ t o) ∧ StartOk (P s₁) start)
    (hexec : ∀ (s : State S T O) (t : T) (c : C) (o : O) (rest : List O) (s₁ : S) (ops : List O)
      (start : Option (T × List O)),
      Reach sys.step (Allowed okExec okArrive) init s → G s.shared → s.threads t = o :: rest →
      P s.shared t o → okExec s.shared t c o → sys.exec s.shared t c o = some (s₁, ops, start) →
      G s₁ ∧ (∀ t o, P s.shared t o → P s₁ t o) ∧ (∀ o ∈ ops, P s₁ t o) ∧ StartOk (P s₁) start)
    (h : Reach sys.step (Allowed okExec okArrive) init s) :
    G s.shared ∧ Pool.All (P s.shared) s.threads := by
  refine Reach.invariant (fun s => G s.shared ∧ Pool.All (P s.shared) s.threads)
    ⟨h0, hP0⟩ ?_ h
  intro s a s' hr ⟨hG, hP⟩ hok hst
  rcases step_cases hst with ⟨t, c, o, rest, s₁, ops, rfl, ht, hex, rfl⟩ |
    ⟨t, c, o, rest, s₁, ops, t', ops', rfl, ht, hex, rfl⟩ | ⟨x, s₁, rfl, harr, rfl⟩ |
    ⟨x, s₁, t, ops, rfl, harr, ht, rfl⟩
  · have hPo := hP t o (by rw [ht]; exact List.mem_cons_self)
    obtain ⟨hG₁, hstable, hops, -⟩ :=
      hexec s t c o rest s₁ ops none hr hG ht hPo (hok o rest ht) hex
    exact ⟨hG₁, (hP.mono hstable).push ht hops⟩
  · have hPo := hP t o (by rw [ht]; exact List.mem_cons_self)
    obtain ⟨hG₁, hstable, hops, hstart⟩ :=
      hexec s t c o rest s₁ ops _ hr hG ht hPo (hok o rest ht) hex
    exact ⟨hG₁, ((hP.mono hstable).push ht hops).spawn hstart⟩
  · obtain ⟨hG₁, hstable, -⟩ := harrive s x s₁ none hr hG hok harr
    exact ⟨hG₁, hP.mono hstable⟩
  · obtain ⟨hG₁, hstable, hstart⟩ := harrive s x s₁ _ hr hG hok harr
    exact ⟨hG₁, (hP.mono hstable).start hstart⟩

/-- An invariant of shared state and goroutines together, of the runs whose
steps meet a condition on both. -/
theorem invariant_run {ok : State S T O → Action T A C → Prop} (I : State S T O → Prop)
    (h0 : I init)
    (hexec : ∀ {s : State S T O} {t : T} {c : C} {o : O} {rest : List O} {s₁ : S} {ops : List O}
      {start : Option (T × List O)},
      Reach sys.step ok init s → I s → sys.halted s.shared = false →
      s.threads t = o :: rest → ok s (.run t c) →
      sys.exec s.shared t c o = some (s₁, ops, start) →
      I ⟨s₁, Pool.spawn (Function.update s.threads t (ops ++ rest)) start⟩)
    (harrive : ∀ {s : State S T O} {a : A} {s₁ : S} {start : Option (T × List O)}
      {threads : T → List O},
      Reach sys.step ok init s → I s → sys.halted s.shared = false →
      ok s (.arrive a) → sys.arrive s.shared a = some (s₁, start) →
      Pool.Arrived s.threads start threads → I ⟨s₁, threads⟩)
    (h : Reach sys.step ok init s) : I s := by
  refine Reach.invariant I h0 ?_ h
  intro s a s' hr hinv hok hst
  have hrun := step_halted hst
  rcases step_cases hst with ⟨t, c, o, rest, s₁, ops, rfl, ht, hex, rfl⟩ |
    ⟨t, c, o, rest, s₁, ops, t', ops', rfl, ht, hex, rfl⟩ | ⟨x, s₁, rfl, harr, rfl⟩ |
    ⟨x, s₁, t, ops, rfl, harr, ht, rfl⟩
  · exact hexec hr hinv hrun ht hok hex
  · exact hexec hr hinv hrun ht hok hex
  · exact harrive hr hinv hrun hok harr rfl
  · exact harrive hr hinv hrun hok harr ⟨ht, rfl⟩

/-- The same where the condition is one on operations and arrivals. -/
theorem invariant_state (I : State S T O → Prop) (h0 : I init)
    (hexec : ∀ {s : State S T O} {t : T} {c : C} {o : O} {rest : List O} {s₁ : S} {ops : List O}
      {start : Option (T × List O)},
      Reach sys.step (Allowed okExec okArrive) init s → I s → sys.halted s.shared = false →
      s.threads t = o :: rest → okExec s.shared t c o →
      sys.exec s.shared t c o = some (s₁, ops, start) →
      I ⟨s₁, Pool.spawn (Function.update s.threads t (ops ++ rest)) start⟩)
    (harrive : ∀ {s : State S T O} {a : A} {s₁ : S} {start : Option (T × List O)}
      {threads : T → List O},
      Reach sys.step (Allowed okExec okArrive) init s → I s → sys.halted s.shared = false →
      okArrive s.shared a → sys.arrive s.shared a = some (s₁, start) →
      Pool.Arrived s.threads start threads → I ⟨s₁, threads⟩)
    (h : Reach sys.step (Allowed okExec okArrive) init s) : I s :=
  invariant_run I h0 (fun hr hinv hrun ht hok hex => hexec hr hinv hrun ht (hok _ _ ht) hex)
    (fun hr hinv hrun hok harr hthreads => harrive hr hinv hrun hok harr hthreads) h

/-- Assertions about operations and an invariant of the shared state and of the
tokens that are carried. The tokens an operation brings in are its own or were
free, and it keeps the assertions of the operations that carry other tokens. -/
theorem invariant_tokens {K : Type} (tok : O → List K) (J : S → (K → Prop) → Prop)
    (P : S → T → O → Prop) (hE0 : Pool.Exclusive tok init.threads)
    (hJ0 : J init.shared (Pool.Held tok init.threads))
    (hP0 : Pool.All (P init.shared) init.threads)
    (hexec : ∀ (s : State S T O) (H : K → Prop) (t : T) (c : C) (o : O) (s₁ : S) (ops : List O)
      (start : Option (T × List O)), Reach sys.step (Allowed okExec okArrive) init s →
      o ∈ s.threads t → J s.shared H → P s.shared t o → (∀ k ∈ tok o, H k) →
      okExec s.shared t c o → sys.exec s.shared t c o = some (s₁, ops, start) →
      ((ops.flatMap tok ++ Pool.startTokens tok start).Nodup ∧
        ∀ k ∈ ops.flatMap tok ++ Pool.startTokens tok start, k ∈ tok o ∨ ¬ H k) ∧
      J s₁ (fun k => k ∈ ops.flatMap tok ++ Pool.startTokens tok start ∨ (H k ∧ k ∉ tok o)) ∧
      (∀ t o', (∀ k ∈ tok o', H k ∧ k ∉ tok o) → P s.shared t o' → P s₁ t o') ∧
      (∀ o ∈ ops, P s₁ t o) ∧ StartOk (P s₁) start)
    (harrive : ∀ (s : State S T O) (H : K → Prop) (a : A) (s₁ : S) (start : Option (T × List O)),
      Reach sys.step (Allowed okExec okArrive) init s → J s.shared H → okArrive s.shared a →
      sys.arrive s.shared a = some (s₁, start) →
      ((Pool.startTokens tok start).Nodup ∧ ∀ k ∈ Pool.startTokens tok start, ¬ H k) ∧
      J s₁ (fun k => k ∈ Pool.startTokens tok start ∨ H k) ∧
      (∀ t o, P s.shared t o → P s₁ t o) ∧ StartOk (P s₁) start)
    (h : Reach sys.step (Allowed okExec okArrive) init s) :
    Pool.Exclusive tok s.threads ∧ J s.shared (Pool.Held tok s.threads) ∧
      Pool.All (P s.shared) s.threads := by
  refine invariant_state (fun s => Pool.Exclusive tok s.threads ∧
    J s.shared (Pool.Held tok s.threads) ∧ Pool.All (P s.shared) s.threads) ⟨hE0, hJ0, hP0⟩ ?_ ?_ h
  · intro s t c o rest s₁ ops start hr ⟨hE, hJ, hP⟩ _ ht hok hex
    have ho : o ∈ s.threads t := by
      rw [ht]
      exact List.mem_cons_self
    obtain ⟨⟨hnd, hfree⟩, hJ₁, hstable, hops, hstart⟩ :=
      hexec s _ t c o s₁ ops start hr ho hJ (hP t o ho) (fun k hk => ⟨t, o, ho, hk⟩) hok hex
    refine ⟨hE.step ht start hnd hfree, ?_, ?_⟩
    · have hheld := funext fun k => propext (hE.held_step ht ops start k)
      exact hheld ▸ hJ₁
    · have hall := hE.all_push ht hP hstable hops
      cases start with
      | none => exact hall
      | some st => exact hall.spawn hstart
  · intro s a s₁ start threads hr ⟨hE, hJ, hP⟩ _ hok harr hthreads
    obtain ⟨⟨hnd, hfree⟩, hJ₁, hstable, hstart⟩ := harrive s _ a s₁ start hr hJ hok harr
    have hspawn : threads = Pool.spawn s.threads start := by
      cases start with
      | none => exact hthreads
      | some st =>
          obtain ⟨hidle, rfl⟩ := hthreads
          rw [Pool.spawn, hidle, List.nil_append]
    subst hspawn
    refine ⟨hE.spawn_free start hnd hfree, ?_, ?_⟩
    · have hheld := funext fun k => propext (Pool.held_spawn tok s.threads start k)
      exact hheld ▸ hJ₁
    · have hall := hP.mono hstable
      cases start with
      | none => exact hall
      | some st => exact hall.spawn hstart

/-- The same where the tokens are known to be exclusive. -/
theorem invariant_owned {K : Type} (tok : O → List K)
    (hE : ∀ {s}, Reach sys.step (Allowed okExec okArrive) init s → Pool.Exclusive tok s.threads)
    (J : S → (K → Prop) → Prop) (P : S → T → O → Prop)
    (hJ0 : J init.shared (Pool.Held tok init.threads))
    (hP0 : Pool.All (P init.shared) init.threads)
    (hexec : ∀ (s : State S T O) (t : T) (c : C) (o : O) (s₁ : S) (ops : List O)
      (start : Option (T × List O)), Reach sys.step (Allowed okExec okArrive) init s →
      o ∈ s.threads t → J s.shared (Pool.Held tok s.threads) → P s.shared t o →
      okExec s.shared t c o → sys.exec s.shared t c o = some (s₁, ops, start) →
      J s₁ (fun k => k ∈ ops.flatMap tok ++ Pool.startTokens tok start ∨
        (Pool.Held tok s.threads k ∧ k ∉ tok o)) ∧
      (∀ t o', (∀ k ∈ tok o', Pool.Held tok s.threads k ∧ k ∉ tok o) →
        P s.shared t o' → P s₁ t o') ∧
      (∀ o ∈ ops, P s₁ t o) ∧ StartOk (P s₁) start)
    (harrive : ∀ (s : State S T O) (a : A) (s₁ : S) (start : Option (T × List O)),
      Reach sys.step (Allowed okExec okArrive) init s → J s.shared (Pool.Held tok s.threads) →
      okArrive s.shared a → sys.arrive s.shared a = some (s₁, start) →
      J s₁ (fun k => k ∈ Pool.startTokens tok start ∨ Pool.Held tok s.threads k) ∧
      (∀ t o, P s.shared t o → P s₁ t o) ∧ StartOk (P s₁) start)
    (h : Reach sys.step (Allowed okExec okArrive) init s) :
    J s.shared (Pool.Held tok s.threads) ∧ Pool.All (P s.shared) s.threads := by
  refine invariant_state (fun s => J s.shared (Pool.Held tok s.threads) ∧
    Pool.All (P s.shared) s.threads) ⟨hJ0, hP0⟩ ?_ ?_ h
  · intro s t c o rest s₁ ops start hr ⟨hJ, hP⟩ _ ht hok hex
    have ho : o ∈ s.threads t := by
      rw [ht]
      exact List.mem_cons_self
    obtain ⟨hJ₁, hstable, hops, hstart⟩ :=
      hexec s t c o s₁ ops start hr ho hJ (hP t o ho) hok hex
    refine ⟨?_, ?_⟩
    · have hheld := funext fun k => propext ((hE hr).held_step ht ops start k)
      exact hheld ▸ hJ₁
    · have hall := (hE hr).all_push ht hP hstable hops
      cases start with
      | none => exact hall
      | some st => exact hall.spawn hstart
  · intro s a s₁ start threads hr ⟨hJ, hP⟩ _ hok harr hthreads
    obtain ⟨hJ₁, hstable, hstart⟩ := harrive s a s₁ start hr hJ hok harr
    have hspawn : threads = Pool.spawn s.threads start := by
      cases start with
      | none => exact hthreads
      | some st =>
          obtain ⟨hidle, rfl⟩ := hthreads
          rw [Pool.spawn, hidle, List.nil_append]
    subst hspawn
    refine ⟨?_, ?_⟩
    · have hheld := funext fun k => propext (Pool.held_spawn tok s.threads start k)
      exact hheld ▸ hJ₁
    · have hall := hP.mono hstable
      cases start with
      | none => exact hall
      | some st => exact hall.spawn hstart

/-- A relation between an operation and what comes after it in its goroutine
holds along every run, if it holds of the operations that are brought in. -/
theorem sequence (R : T → O → List O → Prop) (h0 : ∀ t, Pool.Each (R t) (init.threads t))
    (harrive : ∀ (s : State S T O) (a : A) (s₁ : S) (t : T) (ops : List O),
      Reach sys.step (Allowed okExec okArrive) init s →
      sys.arrive s.shared a = some (s₁, some (t, ops)) → Pool.Each (R t) ops)
    (hexec : ∀ (s : State S T O) (t : T) (c : C) (o : O) (rest : List O) (s₁ : S) (ops : List O)
      (start : Option (T × List O)),
      Reach sys.step (Allowed okExec okArrive) init s → s.threads t = o :: rest →
      R t o rest → Pool.Each (R t) rest → sys.exec s.shared t c o = some (s₁, ops, start) →
      Pool.Each (R t) (ops ++ rest) ∧
        ∀ t' ops', start = some (t', ops') → ∀ cur, Pool.Each (R t') cur →
          Pool.Each (R t') (cur ++ ops'))
    (h : Reach sys.step (Allowed okExec okArrive) init s) :
    ∀ t, Pool.Each (R t) (s.threads t) := by
  have hupdate : ∀ {pool : T → List O} {t : T} {ops : List O},
      (∀ x, Pool.Each (R x) (pool x)) → Pool.Each (R t) ops →
      ∀ x, Pool.Each (R x) (Function.update pool t ops x) := by
    intro pool t ops hpool hops x
    by_cases hx : x = t
    · subst hx
      rw [Function.update_self]
      exact hops
    · rw [Function.update_of_ne hx]
      exact hpool x
  refine Reach.invariant (fun s => ∀ t, Pool.Each (R t) (s.threads t)) h0 ?_ h
  intro s a s' hr hinv _ hst
  rcases step_cases hst with ⟨t, c, o, rest, s₁, ops, rfl, ht, hex, rfl⟩ |
    ⟨t, c, o, rest, s₁, ops, t', ops', rfl, ht, hex, rfl⟩ | ⟨x, s₁, rfl, harr, rfl⟩ |
    ⟨x, s₁, t, ops, rfl, harr, ht, rfl⟩
  · have ho := hinv t
    rw [ht] at ho
    exact hupdate hinv (hexec s t c o rest s₁ ops none hr ht ho.1 ho.2 hex).1
  · have ho := hinv t
    rw [ht] at ho
    obtain ⟨hops, hstart⟩ := hexec s t c o rest s₁ ops _ hr ht ho.1 ho.2 hex
    have hmid := hupdate hinv hops
    exact hupdate hmid (hstart t' ops' rfl _ (hmid t'))
  · exact hinv
  · exact hupdate hinv (harrive s x s₁ t ops hr harr)

/-! ## Records beside the state -/

variable {N : Type} {note : S → T → O → S → N → N}

/-- The component with a record beside its state. `note` says what an
operation writes there, given the state before and after it. -/
def measured (sys : System S T O A C) (note : S → T → O → S → N → N) :
    System (S × N) T O A C where
  exec := fun s t c o =>
    match sys.exec s.1 t c o with
    | none => none
    | some (s₁, ops, start) => some ((s₁, note s.1 t o s₁ s.2), ops, start)
  arrive := fun s a =>
    match sys.arrive s.1 a with
    | none => none
    | some (s₁, start) => some ((s₁, s.2), start)
  halted := fun s => sys.halted s.1

omit [DecidableEq T] in
theorem measured_exec {s s₁ : S × N} {t : T} {c : C} {o : O} {ops : List O}
    {start : Option (T × List O)} (h : (sys.measured note).exec s t c o = some (s₁, ops, start)) :
    sys.exec s.1 t c o = some (s₁.1, ops, start) ∧ s₁.2 = note s.1 t o s₁.1 s.2 := by
  simp only [measured] at h
  split at h
  · cases h
  · next s' ops' start' hex =>
      simp only [Option.some.injEq, Prod.mk.injEq] at h
      obtain ⟨rfl, rfl, rfl⟩ := h
      exact ⟨hex, rfl⟩

omit [DecidableEq T] in
theorem measured_arrive {s s₁ : S × N} {a : A} {start : Option (T × List O)}
    (h : (sys.measured note).arrive s a = some (s₁, start)) :
    sys.arrive s.1 a = some (s₁.1, start) ∧ s₁.2 = s.2 := by
  simp only [measured] at h
  split at h
  · cases h
  · next s' start' harr =>
      simp only [Option.some.injEq, Prod.mk.injEq] at h
      obtain ⟨rfl, rfl⟩ := h
      exact ⟨harr, rfl⟩

/-- The record forgotten. -/
def State.unmeasured (s : State (S × N) T O) : State S T O := ⟨s.shared.1, s.threads⟩

theorem measured_step {s s' : State (S × N) T O} {a : Action T A C}
    (h : (sys.measured note).step s a = some s') :
    sys.step s.unmeasured a = some s'.unmeasured := by
  have hrun : sys.halted s.shared.1 = false := step_halted h
  rcases step_cases h with ⟨t, c, o, rest, s₁, ops, rfl, ht, hex, rfl⟩ |
    ⟨t, c, o, rest, s₁, ops, t', ops', rfl, ht, hex, rfl⟩ | ⟨x, s₁, rfl, harr, rfl⟩ |
    ⟨x, s₁, t, ops, rfl, harr, ht, rfl⟩
  · simp [step, State.unmeasured, hrun, ht, (measured_exec hex).1]
  · simp [step, State.unmeasured, hrun, ht, (measured_exec hex).1]
  · simp [step, State.unmeasured, hrun, (measured_arrive harr).1]
  · simp [step, State.unmeasured, hrun, (measured_arrive harr).1, ht]

/-- A run of the component with the record is one without it. -/
theorem measured_reach {init s : State (S × N) T O}
    (h : Reach (sys.measured note).step
      (Allowed (fun s => okExec s.1) fun s => okArrive s.1) init s) :
    Reach sys.step (Allowed okExec okArrive) init.unmeasured s.unmeasured := by
  induction h with
  | refl => exact .refl
  | @tail s s' a _ hok hst ih =>
      refine .tail ih ?_ (measured_step hst)
      cases a with
      | run t c => exact hok
      | arrive x => exact hok

/-! ## One component in another -/

/-- An operation is performed. -/
theorem step_run {s : State S T O} {t : T} {c : C} {o : O}
    {rest ops : List O} {s₁ : S} {start : Option (T × List O)}
    (hhalt : sys.halted s.shared = false) (ht : s.threads t = o :: rest)
    (hex : sys.exec s.shared t c o = some (s₁, ops, start)) :
    sys.step s (.run t c) =
      some ⟨s₁, Pool.spawn (Function.update s.threads t (ops ++ rest)) start⟩ := by
  cases start <;> simp [step, Pool.spawn, hhalt, ht, hex]

/-- Something arrives. -/
theorem step_arrive {s : State S T O} {a : A} {s₁ : S}
    {start : Option (T × List O)} {threads : T → List O} (hhalt : sys.halted s.shared = false)
    (harr : sys.arrive s.shared a = some (s₁, start))
    (hthreads : Pool.Arrived s.threads start threads) :
    sys.step s (.arrive a) = some ⟨s₁, threads⟩ := by
  cases start with
  | none =>
      obtain rfl : threads = s.threads := hthreads
      simp [step, hhalt, harr]
  | some st =>
      obtain ⟨hidle, rfl⟩ := hthreads
      simp [step, hhalt, harr, hidle]

theorem reach_step {s s' : State S T O} {a : Action T A C}
    (h : sys.step s a = some s') : Reach sys.step unrestricted s s' := by
  refine .tail .refl ?_ h
  cases a with
  | run t c => exact fun _ _ _ => trivial
  | arrive x => trivial

/-- A goroutine performs operations one after another, and nobody else comes
in between. -/
inductive Runs (sys : System S T O A C) (t : T) : S → List O → S → List O → Prop
  | refl {b : S} {l : List O} : Runs sys t b l b l
  | step {b b₁ b₂ : S} {o : O} {l l₂ : List O} (c : C) (ops : List O)
      (hex : sys.exec b t c o = some (b₁, ops, none)) (h : Runs sys t b₁ (ops ++ l) b₂ l₂) :
      Runs sys t b (o :: l) b₂ l₂

theorem Runs.reach {t : T} {b b' : S} {l l' rest : List O} (h : sys.Runs t b l b' l')
    (hrun : ∀ b, sys.halted b = false) {threads : T → List O} (ht : threads t = l ++ rest) :
    Reach sys.step unrestricted ⟨b, threads⟩ ⟨b', Function.update threads t (l' ++ rest)⟩ := by
  induction h generalizing threads with
  | refl =>
      rw [← ht, Function.update_eq_self]
      exact .refl
  | @step b b₁ b₂ o l l₂ c ops hex _ ih =>
      have hstep := step_run (s := ⟨b, threads⟩) (hrun b) ht hex
      change sys.step _ _ = some ⟨b₁, Function.update threads t (ops ++ (l ++ rest))⟩ at hstep
      rw [← List.append_assoc] at hstep
      have hrest := ih (Function.update_self t (ops ++ l ++ rest) threads)
      rw [Function.update_idem] at hrest
      exact (reach_step hstep).trans hrest

/-- A simulation: every operation and every arrival is answered by any number
of steps of another machine. -/
theorem simulation {ok : State S T O → Action T A C → Prop} {U B : Type} {step : U → B → Option U}
    {okU : U → B → Prop} {initU : U} (R : State S T O → U → Prop) (h0 : R init initU)
    (hexec : ∀ {s : State S T O} {t : T} {c : C} {o : O} {rest : List O} {s₁ : S} {ops : List O}
      {start : Option (T × List O)} {u : U},
      Reach sys.step ok init s → R s u → s.threads t = o :: rest →
      sys.exec s.shared t c o = some (s₁, ops, start) →
      ∃ u', Reach step okU u u' ∧
        R ⟨s₁, Pool.spawn (Function.update s.threads t (ops ++ rest)) start⟩ u')
    (harrive : ∀ {s : State S T O} {a : A} {s₁ : S} {start : Option (T × List O)}
      {threads : T → List O} {u : U},
      Reach sys.step ok init s → R s u → sys.arrive s.shared a = some (s₁, start) →
      Pool.Arrived s.threads start threads → ∃ u', Reach step okU u u' ∧ R ⟨s₁, threads⟩ u')
    (h : Reach sys.step ok init s) : ∃ u, Reach step okU initU u ∧ R s u := by
  refine invariant_run (fun s => ∃ u, Reach step okU initU u ∧ R s u) ⟨initU, .refl, h0⟩ ?_ ?_ h
  · rintro s t c o rest s₁ ops start hr ⟨u, hu, hR⟩ - ht - hex
    obtain ⟨u', hu', hR'⟩ := hexec hr hR ht hex
    exact ⟨u', hu.trans hu', hR'⟩
  · rintro s a s₁ start threads hr ⟨u, hu, hR⟩ - - harr hthreads
    obtain ⟨u', hu', hR'⟩ := harrive hr hR harr hthreads
    exact ⟨u', hu.trans hu', hR'⟩

end System

end Konnectivity.Lib
