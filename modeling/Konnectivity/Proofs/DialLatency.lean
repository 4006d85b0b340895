import Mathlib.Data.List.Induction
import Konnectivity.Storage.Backend

/-!
# What a dial latency sample leaves behind

`dialLatency` is a recursive average that starts over only after a gap of
`dialLatencyWindow` between two samples. A chain of samples without such a gap
carries the first one forward, so what a sample leaves behind outlives the
window. The result says at which times of the samples this happens.
-/

namespace Konnectivity

/-- A completed dial. -/
structure DialSample where
  latency : Int64
  time : Int
  deriving DecidableEq, Repr

namespace DialSample

/-- The calls of `observeDial`, oldest first. -/
def observe (b : DialStats) (samples : List DialSample) : DialStats :=
  samples.foldl (fun b x => b.observeDial x.latency x.time) b

/-- A sample influences the selection for `dialLatencyWindow`. -/
def InWindow (now t : Int) : Prop := now - t ≤ dialLatencyWindow

instance (now t : Int) : Decidable (InWindow now t) :=
  inferInstanceAs (Decidable (_ ≤ _))

def recent (now : Int) (samples : List DialSample) : List DialSample :=
  samples.filter fun x => InWindow now x.time

/-- A history up to a time: latencies are not negative and time does not go back. -/
structure IsHistory (now : Int) (samples : List DialSample) : Prop where
  nonneg : ∀ x ∈ samples, 0 ≤ x.latency
  past : ∀ x ∈ samples, x.time ≤ now
  sorted : samples.Pairwise fun x y => x.time ≤ y.time

/-- The cost of a backend with such a history. -/
def cost (samples : List DialSample) (inFlight : Int64) (now : Int) : Int64 :=
  { observe {} samples with dialsInFlight := inFlight }.dialCost now

/-- Whatever the latencies of the samples that two histories took at these times,
where the histories agree inside the window so do the costs. -/
def Expires (now : Int) (times₁ times₂ : List Int) : Prop :=
  ∀ (h₁ h₂ : List DialSample) (inFlight : Int64), IsHistory now h₁ → IsHistory now h₂ →
    h₁.map DialSample.time = times₁ → h₂.map DialSample.time = times₂ →
    recent now h₁ = recent now h₂ → cost h₁ inFlight now = cost h₂ inFlight now

/-- What was taken before the window was taken more than a window before
everything inside. -/
def Apart (now : Int) (times : List Int) : Prop :=
  ∀ u ∈ times, ¬ InWindow now u → ∀ t ∈ times, InWindow now t → dialLatencyWindow < t - u

instance (now : Int) (times : List Int) : Decidable (Apart now times) :=
  inferInstanceAs (Decidable (∀ u ∈ times, _))

variable {now : Int} {samples old new : List DialSample} {b b' : DialStats} {x : DialSample}

theorem mem_recent : x ∈ recent now samples ↔ x ∈ samples ∧ InWindow now x.time := by
  simp [recent, List.mem_filter]

theorem observe_append (b : DialStats) (samples samples' : List DialSample) :
    observe b (samples ++ samples') = observe (observe b samples) samples' :=
  List.foldl_append

theorem observe_snoc (b : DialStats) (samples : List DialSample) (x : DialSample) :
    observe b (samples ++ [x]) = (observe b samples).observeDial x.latency x.time :=
  observe_append b samples [x]

theorem observe_time (b : DialStats) (samples : List DialSample) (x : DialSample) :
    (observe b (samples ++ [x])).dialLatencyAt = some x.time := by
  rw [observe_snoc]
  rfl

/-- A sample after a long gap makes the average start over. -/
theorem observeDial_reset (h : ∀ t, b.dialLatencyAt = some t → dialLatencyWindow < x.time - t) :
    (b.observeDial x.latency x.time).dialLatency = x.latency := by
  unfold DialStats.observeDial
  cases hb : b.dialLatencyAt with
  | none => rfl
  | some t => exact if_pos (h t hb)

/-- The average and its time after a sample, from two averages that agree. -/
theorem observe_congr (hlat : b.dialLatency = b'.dialLatency)
    (htime : b.dialLatencyAt = b'.dialLatencyAt) (samples : List DialSample) :
    (observe b samples).dialLatency = (observe b' samples).dialLatency ∧
      (observe b samples).dialLatencyAt = (observe b' samples).dialLatencyAt := by
  induction samples generalizing b b' with
  | nil => exact ⟨hlat, htime⟩
  | cons x samples ih =>
      refine ih ?_ rfl
      simp only [DialStats.observeDial, hlat, htime]

/-- What comes before a long gap does not count. -/
theorem observe_gap (new : List DialSample)
    (h : ∀ y ∈ old, dialLatencyWindow < x.time - y.time) :
    (observe {} (old ++ x :: new)).dialLatency = (observe {} (x :: new)).dialLatency ∧
      (observe {} (old ++ x :: new)).dialLatencyAt = (observe {} (x :: new)).dialLatencyAt := by
  have hcut : observe {} (old ++ x :: new) =
      observe ((observe {} old).observeDial x.latency x.time) new :=
        observe_append {} old (x :: new)
  rw [hcut]
  have hlat : ((observe {} old).observeDial x.latency x.time).dialLatency =
      (({} : DialStats).observeDial x.latency x.time).dialLatency := by
    rw [observeDial_reset fun t ht => ?_]
    · rfl
    rcases List.eq_nil_or_concat old with rfl | ⟨l, y, rfl⟩
    · cases ht
    · rw [List.concat_eq_append] at ht h
      rw [observe_time] at ht
      cases ht
      exact h y (List.mem_append_right _ List.mem_cons_self)
  exact observe_congr hlat rfl new

/-- The samples of a history before the window, and those inside. -/
theorem history_split (h : IsHistory now samples) :
    ∃ old, samples = old ++ recent now samples ∧ ∀ y ∈ old, ¬ InWindow now y.time := by
  induction samples with
  | nil => exact ⟨[], rfl, by simp⟩
  | cons x samples ih =>
      obtain ⟨hx, hsorted⟩ := List.pairwise_cons.mp h.sorted
      by_cases hr : InWindow now x.time
      · refine ⟨[], ?_, by simp⟩
        have hall : ∀ y ∈ x :: samples, InWindow now y.time := by
          intro y hy
          rcases List.mem_cons.mp hy with rfl | hy
          · exact hr
          · have := hx y hy
            unfold InWindow at hr ⊢
            omega
        rw [List.nil_append, recent, List.filter_eq_self.mpr fun y hy => decide_eq_true (hall y hy)]
      · have htail : IsHistory now samples :=
          ⟨fun y hy => h.nonneg y (List.mem_cons_of_mem _ hy),
            fun y hy => h.past y (List.mem_cons_of_mem _ hy), hsorted⟩
        obtain ⟨old, heq, hold⟩ := ih htail
        refine ⟨x :: old, ?_, ?_⟩
        · rw [recent, List.filter_cons_of_neg (by simpa using hr), List.cons_append]
          exact congrArg (x :: ·) heq
        · intro y hy
          rcases List.mem_cons.mp hy with rfl | hy
          · exact hr
          · exact hold y hy

/-- The cost of a backend whose average and time agree. -/
theorem cost_congr {h₁ h₂ : List DialSample} (inFlight : Int64) (now : Int)
    (hlat : (observe {} h₁).dialLatency = (observe {} h₂).dialLatency)
    (htime : (observe {} h₁).dialLatencyAt = (observe {} h₂).dialLatencyAt) :
    cost h₁ inFlight now = cost h₂ inFlight now := by
  simp only [cost, DialStats.dialCost, hlat, htime]

/-- Samples before the window alone leave the floor. -/
theorem cost_old (h : ∀ y ∈ old, ¬ InWindow now y.time) (inFlight : Int64) :
    cost old inFlight now = cost [] inFlight now := by
  rcases List.eq_nil_or_concat old with rfl | ⟨l, y, rfl⟩
  · rfl
  · rw [List.concat_eq_append] at h ⊢
    have hy : ¬ now - y.time ≤ dialLatencyWindow := h y (List.mem_append_right _ List.mem_cons_self)
    simp only [cost, DialStats.dialCost, observe_time]
    rw [if_neg fun hc => hy hc.1]
    rfl

/-- Where the older samples are far from those in the window, they do not count. -/
theorem cost_apart (hist : IsHistory now samples) (h : Apart now (samples.map DialSample.time))
    (inFlight : Int64) : cost samples inFlight now = cost (recent now samples) inFlight now := by
  obtain ⟨old, heq, hold⟩ := history_split hist
  cases hrec : recent now samples with
  | nil =>
      rw [hrec, List.append_nil] at heq
      rw [heq]
      exact cost_old hold inFlight
  | cons x new =>
      have hx : x ∈ recent now samples := by
        rw [hrec]
        exact List.mem_cons_self
      have hgap : ∀ y ∈ old, dialLatencyWindow < x.time - y.time := by
        intro y hy
        have hmem : y ∈ samples := by
          rw [heq]
          exact List.mem_append_left _ hy
        exact h y.time (List.mem_map_of_mem hmem) (hold y hy) x.time
          (List.mem_map_of_mem (mem_recent.mp hx).1) (mem_recent.mp hx).2
      obtain ⟨h1, h2⟩ := observe_gap new hgap
      rw [heq, hrec]
      exact cost_congr inFlight now h1 h2

theorem expires_apart {times₁ times₂ : List Int} (h₁ : Apart now times₁) (h₂ : Apart now times₂) :
    Expires now times₁ times₂ := by
  rintro s₁ s₂ inFlight hist₁ hist₂ rfl rfl hsame
  rw [cost_apart hist₁ h₁ inFlight, cost_apart hist₂ h₂ inFlight, hsame]

/-! ## A chain without a gap -/

/-- Samples of one latency, however far apart. -/
theorem observe_same {d : Int64} (hd : (d + d) / 2 = d) (hlat : ∀ x ∈ samples, x.latency = d)
    (hne : samples ≠ []) : (observe {} samples).dialLatency = d := by
  induction samples using List.reverseRecOn with
  | nil => exact absurd rfl hne
  | append_singleton l x ih =>
      have hx : x.latency = d := hlat x (by simp)
      rw [observe_snoc, DialStats.observeDial]
      rcases List.eq_nil_or_concat l with rfl | ⟨l', y, rfl⟩
      · exact hx
      · rw [List.concat_eq_append] at ih hlat ⊢
        have hold : (observe {} (l' ++ [y])).dialLatency = d :=
          ih (fun z hz => hlat z (List.mem_append_left _ hz)) (by simp)
        simp only [observe_time, hold, hx, hd, ite_self]

/-- A chain of samples of one latency inside the window, from an average that
they leave alone. -/
theorem observe_chain {d : Int64} {t : Int} (hb : (b.dialLatency + d) / 2 = b.dialLatency)
    (hbt : b.dialLatencyAt = some t) (hlat : ∀ x ∈ samples, x.latency = d)
    (hfirst : ∀ x ∈ samples.head?, x.time - t ≤ dialLatencyWindow)
    (hin : ∀ x ∈ samples, InWindow now x.time) (hpast : ∀ x ∈ samples, x.time ≤ now) :
    (observe b samples).dialLatency = b.dialLatency := by
  induction samples generalizing b t with
  | nil => rfl
  | cons x samples ih =>
      have hnear : x.time - t ≤ dialLatencyWindow := hfirst x rfl
      have hkeep : (b.observeDial x.latency x.time).dialLatency = b.dialLatency := by
        simp only [DialStats.observeDial, hbt]
        rw [if_neg (by omega), hlat x List.mem_cons_self]
        exact hb
      have hnext : ∀ y ∈ samples.head?, y.time - x.time ≤ dialLatencyWindow := by
        intro y hy
        have hx : now - x.time ≤ dialLatencyWindow := hin x List.mem_cons_self
        have hy' := hpast y (List.mem_cons_of_mem _ (List.mem_of_mem_head? hy))
        omega
      have hrest : (observe (b.observeDial x.latency x.time) samples).dialLatency =
          (b.observeDial x.latency x.time).dialLatency :=
        ih (by rw [hkeep]; exact hb) rfl (fun y hy => hlat y (List.mem_cons_of_mem _ hy)) hnext
          (fun y hy => hin y (List.mem_cons_of_mem _ hy))
          fun y hy => hpast y (List.mem_cons_of_mem _ hy)
      exact hrest.trans hkeep

/-- Samples of one latency before the window, and of another inside. -/
theorem observe_handed_on {d e : Int64} {y : DialSample} (hd : (d + d) / 2 = d)
    (hde : (d + e) / 2 = d) (hold : ∀ x ∈ old ++ [y], x.latency = d)
    (hnew : ∀ x ∈ new, x.latency = e)
    (hfirst : ∀ x ∈ new.head?, x.time - y.time ≤ dialLatencyWindow)
    (hin : ∀ x ∈ new, InWindow now x.time) (hpast : ∀ x ∈ new, x.time ≤ now) :
    (observe {} (old ++ [y] ++ new)).dialLatency = d := by
  have hsame : (observe {} (old ++ [y])).dialLatency = d := observe_same hd hold (by simp)
  have hchain := observe_chain (b := observe {} (old ++ [y])) (by rw [hsame]; exact hde)
    (observe_time {} old y) hnew hfirst hin hpast
  rw [observe_append, hchain, hsame]

/-- The cost is the average where that is above the floor and a sample is inside
the window. -/
theorem cost_recent (hsorted : samples.Pairwise fun x y => x.time ≤ y.time) (hx : x ∈ samples)
    (hin : InWindow now x.time) (hfloor : dialLatencyFloor < (observe {} samples).dialLatency) :
    cost samples 0 now = (observe {} samples).dialLatency := by
  rcases List.eq_nil_or_concat samples with rfl | ⟨l, y, rfl⟩
  · cases hx
  rw [List.concat_eq_append] at hsorted hx hfloor ⊢
  have hlast : now - y.time ≤ dialLatencyWindow := by
    rcases List.mem_append.mp hx with hl | hy
    · have := (List.pairwise_append.mp hsorted).2.2 x hl y List.mem_cons_self
      unfold InWindow at hin
      omega
    · rw [List.mem_singleton.mp hy] at hin
      exact hin
  simp only [cost, DialStats.dialCost, observe_time]
  rw [if_pos ⟨hlast, hfloor⟩]
  have hone : (if (0 : Int64) < 0 then (0 : Int64) else 0) + 1 = 1 := by decide
  rw [hone]
  exact Int64.mul_one _

/-- A latency above the floor. -/
def slow : Int64 := 20000000

/-- Slow samples inside the window, and samples of another latency before it. -/
def slowSince (now : Int) (d : Int64) (times : List Int) : List DialSample :=
  times.map fun t => ⟨if InWindow now t then slow else d, t⟩

section SlowSince

variable {d : Int64} {times times' : List Int}

theorem slowSince_times : (slowSince now d times).map DialSample.time = times := by
  simp [slowSince, Function.comp_def]

theorem isHistory_slowSince (hd : 0 ≤ d) (hsorted : times.Pairwise (· ≤ ·))
    (hpast : ∀ t ∈ times, t ≤ now) : IsHistory now (slowSince now d times) := by
  refine ⟨fun x hx => ?_, fun x hx => ?_, List.pairwise_map.mpr hsorted⟩
  · obtain ⟨t, -, rfl⟩ := List.mem_map.mp hx
    change (0 : Int64) ≤ if InWindow now t then slow else d
    split
    · decide
    · exact hd
  · obtain ⟨t, ht, rfl⟩ := List.mem_map.mp hx
    exact hpast t ht

theorem recent_slowSince : recent now (slowSince now d times) =
    (times.filter fun t => InWindow now t).map fun t => ⟨slow, t⟩ := by
  induction times with
  | nil => rfl
  | cons t times ih =>
      change List.filter _ (⟨if InWindow now t then slow else d, t⟩ :: slowSince now d times) = _
      by_cases ht : InWindow now t
      · rw [List.filter_cons_of_pos (by simpa using ht),
          List.filter_cons_of_pos (by simpa using ht), List.map_cons, if_pos ht]
        exact congrArg _ ih
      · rw [List.filter_cons_of_neg (by simpa using ht),
          List.filter_cons_of_neg (by simpa using ht)]
        exact ih

theorem mem_slowSince (now : Int) (d : Int64) {t : Int} (ht : t ∈ times) :
    ∃ x ∈ slowSince now d times, x.time = t :=
  ⟨_, List.mem_map_of_mem ht, rfl⟩

theorem slowSince_latency (hx : x ∈ slowSince now d times) :
    x.latency = if InWindow now x.time then slow else d := by
  obtain ⟨t, -, rfl⟩ := List.mem_map.mp hx
  rfl

theorem cost_slow (hist : IsHistory now (slowSince now slow times)) {t : Int} (ht : t ∈ times)
    (hin : InWindow now t) : cost (slowSince now slow times) 0 now = slow := by
  obtain ⟨x, hx, rfl⟩ := mem_slowSince now slow ht
  have hsame : (observe {} (slowSince now slow times)).dialLatency = slow := by
    refine observe_same (by decide) (fun y hy => ?_) (List.ne_nil_of_mem hx)
    rw [slowSince_latency hy, ite_self]
  rw [cost_recent hist.sorted hx hin (by rw [hsame]; decide), hsame]

/-- Where the samples before the window are not apart from it, what they leave
behind is handed on through it. -/
theorem cost_handed_on (hd : (d + d) / 2 = d) (hslow : (d + slow) / 2 = d)
    (hfloor : dialLatencyFloor < d) (hist : IsHistory now (slowSince now d times))
    (h : ¬ Apart now times) : cost (slowSince now d times) 0 now = d := by
  obtain ⟨u, hu, hout, t, ht, hint, hnear⟩ :
      ∃ u ∈ times, ¬ InWindow now u ∧ ∃ t ∈ times, InWindow now t ∧ t - u ≤ dialLatencyWindow := by
    simpa [Apart] using h
  obtain ⟨xu, hxu, rfl⟩ := mem_slowSince now d hu
  obtain ⟨xt, hxt, rfl⟩ := mem_slowSince now d ht
  obtain ⟨old, heq, hold⟩ := history_split hist
  have hsorted := hist.sorted
  rw [heq] at hsorted
  obtain ⟨hsold, hsnew, -⟩ := List.pairwise_append.mp hsorted
  have holdmem : xu ∈ old := by
    rw [heq] at hxu
    exact (List.mem_append.mp hxu).resolve_right fun hr => hout (mem_recent.mp hr).2
  have hlatOld : ∀ x ∈ old, x.latency = d := by
    intro x hx
    have hx' : x ∈ slowSince now d times := by
      rw [heq]
      exact List.mem_append_left _ hx
    rw [slowSince_latency hx', if_neg (hold x hx)]
  -- the last sample before the window and the first one inside are at least as near
  rcases List.eq_nil_or_concat old with rfl | ⟨l, y, rfl⟩
  · cases holdmem
  rw [List.concat_eq_append] at heq hsold holdmem hlatOld
  have hy : xu.time ≤ y.time := by
    rcases List.mem_append.mp holdmem with hl | hl
    · exact (List.pairwise_append.mp hsold).2.2 xu hl y List.mem_cons_self
    · exact Int.le_of_eq (congrArg DialSample.time (List.mem_singleton.mp hl))
  have hfirst : ∀ x ∈ (recent now (slowSince now d times)).head?,
      x.time - y.time ≤ dialLatencyWindow := by
    intro x hx
    have hxt' : xt ∈ recent now (slowSince now d times) := mem_recent.mpr ⟨hxt, hint⟩
    obtain ⟨rest, hrec⟩ := List.head?_eq_some_iff.mp hx
    rw [hrec] at hxt' hsnew
    have hle : x.time ≤ xt.time := by
      rcases List.mem_cons.mp hxt' with rfl | hr
      · exact Int.le_refl _
      · exact (List.pairwise_cons.mp hsnew).1 xt hr
    omega
  have hlat : (observe {} (slowSince now d times)).dialLatency = d := by
    rw [heq]
    refine observe_handed_on hd hslow hlatOld (fun x hx => ?_) hfirst
      (fun x hx => (mem_recent.mp hx).2) fun x hx => hist.past x (mem_recent.mp hx).1
    rw [slowSince_latency (mem_recent.mp hx).1, if_pos (mem_recent.mp hx).2]
  rw [cost_recent hist.sorted hxt hint (by rw [hlat]; exact hfloor), hlat]

end SlowSince

/-- Two histories with the same samples inside the window, of which the first has
older ones that are not apart. -/
theorem not_expires {times₁ times₂ : List Int} (hsorted₁ : times₁.Pairwise (· ≤ ·))
    (hsorted₂ : times₂.Pairwise (· ≤ ·)) (hpast₁ : ∀ t ∈ times₁, t ≤ now)
    (hpast₂ : ∀ t ∈ times₂, t ≤ now)
    (hsame : (times₁.filter fun t => InWindow now t) = times₂.filter fun t => InWindow now t)
    (h : ¬ Apart now times₁) :
    cost (slowSince now (slow - 1) times₁) 0 now ≠ cost (slowSince now slow times₂) 0 now := by
  have hist₁ := isHistory_slowSince (d := slow - 1) (by decide) hsorted₁ hpast₁
  have hist₂ := isHistory_slowSince (d := slow) (by decide) hsorted₂ hpast₂
  obtain ⟨t, ht, hin⟩ : ∃ t ∈ times₁, InWindow now t := by
    by_contra hnone
    exact h fun u _ _ t ht hin => absurd ⟨t, ht, hin⟩ hnone
  have ht₂ : t ∈ times₂ := by
    have hmem : t ∈ times₁.filter fun t => InWindow now t :=
      List.mem_filter.mpr ⟨ht, by simpa using hin⟩
    rw [hsame] at hmem
    exact (List.mem_filter.mp hmem).1
  rw [cost_handed_on (by decide) (by decide) (by decide) hist₁ h, cost_slow hist₂ ht₂ hin]
  decide

/-- Whatever the samples that two histories took at given times, those before the
window count no more exactly if in both histories they lie more than a window
before the ones inside. -/
theorem sample_expires_iff (now : Int) (times₁ times₂ : List Int)
    (hsorted₁ : times₁.Pairwise (· ≤ ·)) (hsorted₂ : times₂.Pairwise (· ≤ ·))
    (hpast₁ : ∀ t ∈ times₁, t ≤ now) (hpast₂ : ∀ t ∈ times₂, t ≤ now)
    (hsame : (times₁.filter fun t => InWindow now t) = times₂.filter fun t => InWindow now t) :
    Expires now times₁ times₂ ↔ Apart now times₁ ∧ Apart now times₂ := by
  have hist : ∀ {d : Int64} {times : List Int}, 0 ≤ d → times.Pairwise (· ≤ ·) →
      (∀ t ∈ times, t ≤ now) → IsHistory now (slowSince now d times) := isHistory_slowSince
  refine ⟨fun h => ⟨?_, ?_⟩, fun h => expires_apart h.1 h.2⟩
  · by_contra hnot
    refine not_expires hsorted₁ hsorted₂ hpast₁ hpast₂ hsame hnot ?_
    exact h _ _ 0 (hist (by decide) hsorted₁ hpast₁) (hist (by decide) hsorted₂ hpast₂)
      slowSince_times slowSince_times (by rw [recent_slowSince, recent_slowSince, hsame])
  · by_contra hnot
    refine not_expires hsorted₂ hsorted₁ hpast₂ hpast₁ hsame.symm hnot (Eq.symm ?_)
    exact h _ _ 0 (hist (by decide) hsorted₁ hpast₁) (hist (by decide) hsorted₂ hpast₂)
      slowSince_times slowSince_times (by rw [recent_slowSince, recent_slowSince, hsame])

/-- A sample taken forty seconds before the next one does not count at fifty
seconds, whatever its latency. -/
theorem sample_expires_after_gap :
    Expires 50000000000 [0, 40000000000] [0, 40000000000] :=
  (sample_expires_iff 50000000000 [0, 40000000000] [0, 40000000000] (by decide) (by decide)
    (by decide) (by decide) rfl).mpr (by decide)

/-- A sample 31 seconds old, after which one came 20 seconds later, still counts. -/
theorem sample_outlives_window :
    ¬ ∀ (now : Int) (h₁ h₂ : List DialSample) (inFlight : Int64), IsHistory now h₁ →
      IsHistory now h₂ → recent now h₁ = recent now h₂ →
      cost h₁ inFlight now = cost h₂ inFlight now := by
  intro h
  have hist : ∀ d : Int64, 0 ≤ d → IsHistory 31000000000 [⟨d, 0⟩, ⟨slow, 20000000000⟩] := by
    intro d hd
    refine ⟨?_, by simp, by simp⟩
    simp only [List.forall_mem_cons, List.not_mem_nil, false_implies, implies_true, and_true]
    exact ⟨hd, by decide⟩
  have hsame := h 31000000000 [⟨1000000000, 0⟩, ⟨slow, 20000000000⟩] [⟨0, 0⟩, ⟨slow, 20000000000⟩] 0
    (hist _ (by decide)) (hist _ (by decide)) (by decide)
  exact absurd hsame (by decide)

end DialSample

end Konnectivity
