import Konnectivity.Server.Leases

/-!
# What the garbage collector deletes

A pass works on a snapshot. The `resourceVersion` of an item stands for one
write of its name, so a delete that goes through finds the very object that
was listed: it was not written since, and it still matches the selector and is
still expired, as the clock of the controller has only advanced.
-/

namespace Konnectivity.Server.Leases

open Lib

/-! ## A pass in the log -/

/-- What the controller listed last. -/
def lastListed (k : Controller) : List Event → Option (List Lease)
  | [] => none
  | .listed k' items :: log => if k' = k then some items else lastListed k log
  | _ :: log => lastListed k log

/-- What happened since. -/
def sinceListed (k : Controller) : List Event → List Event
  | [] => []
  | .listed k' items :: log => if k' = k then [] else .listed k' items :: sinceListed k log
  | e :: log => e :: sinceListed k log

/-- Not a listing of this controller. -/
def Event.aside (k : Controller) : Event → Bool
  | .listed k' _ => k' ≠ k
  | _ => true

theorem lastListed_cons {k : Controller} {e : Event} (he : e.aside k = true) (log : List Event) :
    lastListed k (e :: log) = lastListed k log := by
  cases e with
  | listed k' items =>
      have hne : k' ≠ k := by simpa [Event.aside] using he
      rw [lastListed, if_neg hne]
  | _ => rfl

theorem sinceListed_cons {k : Controller} {e : Event} (he : e.aside k = true) (log : List Event) :
    sinceListed k (e :: log) = e :: sinceListed k log := by
  cases e with
  | listed k' items =>
      have hne : k' ≠ k := by simpa [Event.aside] using he
      rw [sinceListed, if_neg hne]
  | _ => rfl

/-! ## Expiry -/

/-- The renew time, or else the acquire time. -/
def Lease.lastRenewTime (lease : Lease) : Option Time := lease.renewTime.or lease.acquireTime

/-- The lease has run out at `now`. -/
def Lease.ExpiredAt (lease : Lease) (now : Time) : Prop :=
  ∃ t d, lease.lastRenewTime = some t ∧ lease.leaseDurationSeconds = some d ∧ t + d * second ≤ now

theorem isLeaseValid_eq (now : Time) (lease : Lease) :
    isLeaseValid now lease = match lease.lastRenewTime with
      | none => some false
      | some t => lease.leaseDurationSeconds.map fun d => decide (now < t + d * second) := by
  unfold isLeaseValid Lease.lastRenewTime
  cases lease.renewTime with
  | some t => rfl
  | none =>
      cases lease.acquireTime with
      | some t => rfl
      | none => rfl

/-- What `IsLeaseValid` marks as expired. -/
theorem isLeaseValid_false {now : Time} {lease : Lease} :
    isLeaseValid now lease = some false ↔ lease.lastRenewTime = none ∨ lease.ExpiredAt now := by
  rw [isLeaseValid_eq]
  constructor
  · intro h
    split at h
    · next hnone => exact Or.inl hnone
    · next t ht =>
        obtain ⟨d, hd, hlt⟩ := Option.map_eq_some_iff.mp h
        exact Or.inr ⟨t, d, ht, hd, by simpa using hlt⟩
  · rintro (hnone | ⟨t, d, ht, hd, hle⟩)
    · rw [hnone]
    · rw [ht, hd]
      simpa using hle

/-- A lease does not come back to life on a clock that advances. -/
theorem isLeaseValid_mono {now now' : Time} {lease : Lease} (hle : now ≤ now')
    (h : isLeaseValid now lease = some false) : isLeaseValid now' lease = some false := by
  rw [isLeaseValid_false] at h ⊢
  refine h.imp_right ?_
  rintro ⟨t, d, ht, hd, he⟩
  exact ⟨t, d, ht, hd, Int.le_trans he hle⟩

/-! ## The invariant -/

variable {selects : Controller → List (String × String) → Bool}

/-- A lease a pass still has to deal with. -/
structure Pending (selects : Controller → List (String × String) → Bool) (s : GcState)
    (k : Controller) (lease : Lease) : Prop where
  listed : ∃ items, lastListed k s.log = some items ∧ lease ∈ items
  selected : selects k lease.labels = true
  used : (lease.name, lease.resourceVersion) ∈ s.used
  -- The object with this resource version is the one that was listed.
  same : ∀ stored, s.leases.lookup lease.name = some stored →
    stored.resourceVersion = lease.resourceVersion →
    stored = lease ∧ .written lease.name ∉ sinceListed k s.log

/-- The pass of a controller. -/
structure PassInv (selects : Controller → List (String × String) → Bool) (s : GcState)
    (k : Controller) (ops : List Op) : Prop where
  listing : .list ∈ ops → ops = [.list]
  pending : ∀ lease, .check lease ∈ ops ∨ .delete lease ∈ ops → Pending selects s k lease
  duration : ∀ lease, .check lease ∈ ops → lease.leaseDurationSeconds.isSome = true
  expired : ∀ lease, .delete lease ∈ ops → isLeaseValid (s.clock k) lease = some false
  -- Nothing that was listed is left out.
  checked : ∀ items, lastListed k s.log = some items → ∀ lease ∈ items,
    (∃ valid, .checked k lease valid ∈ sinceListed k s.log) ∨ .check lease ∈ ops
  attempted : ∀ lease, .checked k lease false ∈ sinceListed k s.log →
    (∃ result, .attempted k lease result ∈ sinceListed k s.log) ∨ .delete lease ∈ ops

/-- What is true of a deletion when it takes place. -/
def Event.Deleting (selects : Controller → List (String × String) → Bool) :
    Event → List Event → Prop
  | .deleted k stored now, earlier =>
      (∃ items, lastListed k earlier = some items ∧ stored ∈ items) ∧
        selects k stored.labels = true ∧ .written stored.name ∉ sinceListed k earlier ∧
        (stored.lastRenewTime = none ∨ stored.ExpiredAt now)
  | _, _ => True

structure LeaseInv (selects : Controller → List (String × String) → Bool)
    (s : System.State GcState Controller Op) : Prop where
  alive : s.shared.panic = false
  stored : ∀ name lease, s.shared.leases.lookup name = some lease →
    lease.name = name ∧ (name, lease.resourceVersion) ∈ s.shared.used
  pass : ∀ k, PassInv selects s.shared k (s.threads k)
  history : Pool.Each (Event.Deleting selects) s.shared.log

/-! ## Steps -/

theorem listed_append {k : Controller} {es : List Event} (hes : ∀ e ∈ es, e.aside k = true)
    (log : List Event) : lastListed k (es ++ log) = lastListed k log ∧
      sinceListed k (es ++ log) = es ++ sinceListed k log := by
  induction es with
  | nil => exact ⟨rfl, rfl⟩
  | cons e es ih =>
      obtain ⟨h1, h2⟩ := ih fun x hx => hes x (List.mem_cons_of_mem _ hx)
      have he := hes e List.mem_cons_self
      rw [List.cons_append, lastListed_cons he, sinceListed_cons he, h1, h2]
      exact ⟨rfl, rfl⟩

section Steps

variable {s s₁ : GcState} {k : Controller} {lease : Lease} {ops rest : List Op}

/-- The stored objects are those of before, or new ones with a new version. -/
def StoredFrom (s s₁ : GcState) (es : List Event) : Prop :=
  ∀ name stored, s₁.leases.lookup name = some stored →
    (s.leases.lookup name = some stored ∧ .written name ∉ es) ∨
      (name, stored.resourceVersion) ∉ s.used

/-- Whatever else happens, a pending lease stays what it is. -/
theorem Pending.step (h : Pending selects s k lease) (es : List Event)
    (hlog : s₁.log = es ++ s.log) (hes : ∀ e ∈ es, e.aside k = true) (hused : s.used ⊆ s₁.used)
    (hstored : StoredFrom s s₁ es) : Pending selects s₁ k lease := by
  obtain ⟨hlast, hsince⟩ := listed_append hes s.log
  rw [← hlog] at hlast hsince
  refine ⟨hlast ▸ h.listed, h.selected, hused h.used, fun stored hl hrv => ?_⟩
  rcases hstored lease.name stored hl with ⟨hl, hw⟩ | hfresh
  · obtain ⟨heq, hnot⟩ := h.same stored hl hrv
    rw [hsince]
    exact ⟨heq, fun hin => (List.mem_append.mp hin).elim hw hnot⟩
  · rw [hrv] at hfresh
    exact absurd h.used hfresh

/-- A step that leaves the pass where it is, or takes its first operation away. -/
theorem PassInv.step (h : PassInv selects s k ops) {ops' : List Op} (es : List Event)
    (hlog : s₁.log = es ++ s.log) (hes : ∀ e ∈ es, e.aside k = true) (hused : s.used ⊆ s₁.used)
    (hclock : s.clock k ≤ s₁.clock k) (hstored : StoredFrom s s₁ es)
    (hlist : .list ∈ ops' → ops' = [.list])
    (hops : ∀ lease, (.check lease ∈ ops' → .check lease ∈ ops) ∧ (.delete lease ∈ ops' →
      .delete lease ∈ ops ∨ (.check lease ∈ ops ∧ isLeaseValid (s.clock k) lease = some false)))
    (hchecked : ∀ lease, .check lease ∈ ops → .check lease ∈ ops' ∨
      ∃ valid, .checked k lease valid ∈ es)
    (hattempted : ∀ lease, .delete lease ∈ ops ∨ .checked k lease false ∈ es →
      .delete lease ∈ ops' ∨ ∃ result, .attempted k lease result ∈ es) :
    PassInv selects s₁ k ops' := by
  obtain ⟨hlast, hsince⟩ := listed_append hes s.log
  rw [← hlog] at hlast hsince
  refine ⟨hlist, fun lease hl => ?_, fun lease hl => h.duration lease ((hops lease).1 hl),
    fun lease hl => ?_, fun items hit lease hin => ?_, fun lease hc => ?_⟩
  · refine Pending.step (h.pending lease ?_) es hlog hes hused hstored
    rcases hl with hl | hl
    · exact Or.inl ((hops lease).1 hl)
    · rcases (hops lease).2 hl with hl | ⟨hl, -⟩
      · exact Or.inr hl
      · exact Or.inl hl
  · refine isLeaseValid_mono hclock ?_
    rcases (hops lease).2 hl with hl | ⟨-, hexp⟩
    · exact h.expired lease hl
    · exact hexp
  · rw [hlast] at hit
    rw [hsince]
    rcases h.checked items hit lease hin with ⟨valid, hc⟩ | hc
    · exact Or.inl ⟨valid, List.mem_append_right _ hc⟩
    · rcases hchecked lease hc with hc | ⟨valid, hc⟩
      · exact Or.inr hc
      · exact Or.inl ⟨valid, List.mem_append_left _ hc⟩
  · rw [hsince] at hc ⊢
    have hcase : (∃ result, .attempted k lease result ∈ sinceListed k s.log) ∨
        .delete lease ∈ ops ∨ .checked k lease false ∈ es := by
      rcases List.mem_append.mp hc with hc | hc
      · exact Or.inr (Or.inr hc)
      · exact (h.attempted lease hc).imp_right Or.inl
    rcases hcase with ⟨result, ha⟩ | hd
    · exact Or.inl ⟨result, List.mem_append_right _ ha⟩
    · rcases hattempted lease hd with hd | ⟨result, ha⟩
      · exact Or.inr hd
      · exact Or.inl ⟨result, List.mem_append_left _ ha⟩

/-- A step of somebody else. -/
theorem PassInv.aside (h : PassInv selects s k ops) (es : List Event)
    (hlog : s₁.log = es ++ s.log) (hes : ∀ e ∈ es, e.aside k = true) (hused : s.used ⊆ s₁.used)
    (hclock : s.clock k ≤ s₁.clock k) (hstored : StoredFrom s s₁ es)
    (hnot : ∀ lease, .checked k lease false ∉ es) : PassInv selects s₁ k ops :=
  h.step es hlog hes hused hclock hstored h.listing (fun _ => ⟨id, Or.inl⟩) (fun _ => Or.inl)
    fun lease hl => Or.inl (hl.resolve_right (hnot lease))

/-- The listing that starts a pass. -/
theorem PassInv.list (hstored : ∀ name lease, s.leases.lookup name = some lease →
      lease.name = name ∧ (name, lease.resourceVersion) ∈ s.used)
    {items : List Lease} (hitems : items = s.leases.values.filter fun l => selects k l.labels)
    (hdur : ∀ lease ∈ items, lease.leaseDurationSeconds.isSome = true) :
    PassInv selects (s.record (.listed k items)) k (items.map .check) := by
  have hlast : lastListed k (s.record (.listed k items)).log = some items := by
    rw [GcState.record_log, lastListed, if_pos rfl]
  have hsince : sinceListed k (s.record (.listed k items)).log = [] := by
    rw [GcState.record_log, sinceListed, if_pos rfl]
  have hmem : ∀ lease, (.check lease ∈ items.map Op.check ∨ .delete lease ∈ items.map Op.check) →
      lease ∈ items := by
    intro lease hl
    simpa using hl
  refine ⟨fun hl => ?_, fun lease hl => ?_, fun lease hl => hdur lease (hmem lease (Or.inl hl)),
    fun lease hl => ?_, fun items' hit lease hin => ?_, fun lease hc => ?_⟩
  · simp at hl
  · have hin := hmem lease hl
    have hin' := hin
    rw [hitems, List.mem_filter, GoMap.mem_values_iff] at hin'
    obtain ⟨⟨name, hl⟩, hsel⟩ := hin'
    obtain ⟨hname, hused⟩ := hstored name lease hl
    refine ⟨⟨items, hlast, hin⟩, hsel, hname ▸ hused, fun stored hl' _ => ?_⟩
    rw [hsince]
    rw [GcState.record_leases, hname, hl] at hl'
    exact ⟨(Option.some.inj hl').symm, List.not_mem_nil⟩
  · simp at hl
  · rw [hlast] at hit
    cases hit
    exact Or.inr (List.mem_map_of_mem hin)
  · rw [hsince] at hc
    cases hc

/-- What a `Delete` does to the state. -/
theorem exec_delete {request : Request} {start : Option (Controller × List Op)}
    (hex : exec selects s k request (.delete lease) = some (s₁, ops, start)) :
    ops = [] ∧ start = none ∧ ∃ result, s₁ = s.record (.attempted k lease result) ∨
      ∃ stored, s.leases.lookup lease.name = some stored ∧
        stored.resourceVersion = lease.resourceVersion ∧
        s₁ = ({ s with leases := s.leases.erase lease.name }.record
          (.deleted k stored (s.clock k))).record (.attempted k lease result) := by
  have hapi : (s.apiDelete k lease.name lease.resourceVersion).1 = s ∨
      ∃ stored, s.leases.lookup lease.name = some stored ∧
        stored.resourceVersion = lease.resourceVersion ∧
        (s.apiDelete k lease.name lease.resourceVersion).1 =
          { s with leases := s.leases.erase lease.name }.record
          (.deleted k stored (s.clock k)) := by
    unfold GcState.apiDelete
    split
    · exact Or.inl rfl
    · next stored hl =>
        split
        · next hrv => exact Or.inr ⟨stored, hl, hrv, rfl⟩
        · exact Or.inl rfl
  have hany : ∀ result, ∃ result', (s.apiDelete k lease.name lease.resourceVersion).1.record
      (.attempted k lease result) = s.record (.attempted k lease result') ∨
      ∃ stored, s.leases.lookup lease.name = some stored ∧
        stored.resourceVersion = lease.resourceVersion ∧
        (s.apiDelete k lease.name lease.resourceVersion).1.record (.attempted k lease result) =
          ({ s with leases := s.leases.erase lease.name }.record
            (.deleted k stored (s.clock k))).record (.attempted k lease result') := by
    intro result
    refine ⟨result, ?_⟩
    rcases hapi with heq | ⟨stored, hl, hrv, heq⟩
    · exact Or.inl (by rw [heq])
    · exact Or.inr ⟨stored, hl, hrv, by rw [heq]⟩
  simp only [exec] at hex
  split at hex <;> cases hex
  · exact ⟨rfl, rfl, _, Or.inl rfl⟩
  · exact ⟨rfl, rfl, hany _⟩
  · exact ⟨rfl, rfl, hany _⟩

theorem storedFrom_erase {name : String} {es : List Event} (hes : ∀ n, .written n ∉ es)
    (hl : s₁.leases = s.leases.erase name) : StoredFrom s s₁ es := by
  intro n stored hs
  rw [hl, GoMap.lookup_erase_if] at hs
  split at hs
  · cases hs
  · exact Or.inl ⟨hs, hes n⟩

theorem storedFrom_same {es : List Event} (hes : ∀ n, .written n ∉ es)
    (hl : s₁.leases = s.leases) : StoredFrom s s₁ es :=
  fun n _ hs => Or.inl ⟨hl ▸ hs, hes n⟩

/-- The operations of a pass by its own controller. -/
theorem PassInv.check (h : PassInv selects s k (.check lease :: rest)) {valid : Bool}
    (hvalid : isLeaseValid (s.clock k) lease = some valid) :
    PassInv selects (s.record (.checked k lease valid)) k
      ((if valid then [] else [.delete lease]) ++ rest) := by
  have hno : .list ∉ rest := fun hl => by
    have := h.listing (List.mem_cons_of_mem _ hl)
    simp at this
  have hafter : ∀ {o : Op}, o ∈ (if valid then [] else [.delete lease]) ++ rest →
      o ∈ rest ∨ (o = .delete lease ∧ valid = false) := by
    intro o ho
    rcases List.mem_append.mp ho with ho | ho
    · split at ho
      · cases ho
      · next hv => exact Or.inr ⟨List.mem_singleton.mp ho, Bool.eq_false_iff.mpr hv⟩
    · exact Or.inl ho
  refine h.step [.checked k lease valid] rfl (by simp [Event.aside]) (fun _ hu => hu)
    (Int.le_refl _)
    (storedFrom_same (by simp) rfl) (fun hl => ?_) (fun lease' => ⟨fun hl => ?_, fun hl => ?_⟩)
    (fun lease' hl => ?_) (fun lease' hl => ?_)
  · rcases hafter hl with hl | ⟨hl, -⟩
    · exact absurd hl hno
    · cases hl
  · rcases hafter hl with hl | ⟨hl, -⟩
    · exact List.mem_cons_of_mem _ hl
    · cases hl
  · rcases hafter hl with hl | ⟨hl, hv⟩
    · exact Or.inl (List.mem_cons_of_mem _ hl)
    · cases hl
      exact Or.inr ⟨List.mem_cons_self, hv ▸ hvalid⟩
  · rcases List.mem_cons.mp hl with heq | hl
    · cases heq
      exact Or.inr ⟨valid, List.mem_cons_self⟩
    · exact Or.inl (List.mem_append_right _ hl)
  · rcases hl with hl | hl
    · exact Or.inl (List.mem_append_right _ (by simpa using hl))
    · cases List.mem_singleton.mp hl
      exact Or.inl List.mem_cons_self

theorem PassInv.delete (h : PassInv selects s k (.delete lease :: rest)) (es : List Event)
    {result : DeleteResult} (hlog : s₁.log = .attempted k lease result :: es ++ s.log)
    (hes : ∀ e ∈ es, e.aside k = true ∧ ∀ l valid, e ≠ .checked k l valid)
    (hused : s.used ⊆ s₁.used) (hclock : s.clock k ≤ s₁.clock k)
    (hstored : StoredFrom s s₁ (.attempted k lease result :: es)) :
    PassInv selects s₁ k rest := by
  refine h.step (.attempted k lease result :: es) hlog (fun e he => ?_) hused hclock hstored
    (fun hl => ?_) (fun lease' => ⟨List.mem_cons_of_mem _, fun hl => ?_⟩) (fun lease' hl => ?_)
    (fun lease' hl => ?_)
  · rcases List.mem_cons.mp he with rfl | he
    · rfl
    · exact (hes e he).1
  · have := h.listing (List.mem_cons_of_mem _ hl)
    simp at this
  · exact Or.inl (List.mem_cons_of_mem _ hl)
  · exact Or.inl (by simpa using hl)
  · rcases hl with hl | hl
    · rcases List.mem_cons.mp hl with heq | hl
      · cases heq
        exact Or.inr ⟨result, List.mem_cons_self⟩
      · exact Or.inl hl
    · rcases List.mem_cons.mp hl with heq | hl
      · cases heq
      · exact absurd rfl ((hes _ hl).2 lease' false)

end Steps

/-- The leases a pass lists carry a duration. -/
def ListsDurations (selects : Controller → List (String × String) → Bool) (s : GcState)
    (k : Controller) (_ : Request) : Op → Prop
  | .list => ∀ lease ∈ s.leases.values.filter fun l => selects k l.labels,
      lease.leaseDurationSeconds.isSome = true
  | _ => True

instance ListsDurations.decidable (s : GcState) (k : Controller) (r : Request) :
    ∀ op, Decidable (ListsDurations selects s k r op)
  | .list => inferInstanceAs (Decidable (∀ lease ∈ s.leases.values.filter fun l =>
      selects k l.labels, lease.leaseDurationSeconds.isSome = true))
  | .check _ => isTrue trivial
  | .delete _ => isTrue trivial

/-! ## Runs -/

section Runs

variable {s : System.State GcState Controller Op} {s₁ : GcState} {k : Controller}
  {request : Request} {op : Op} {ops rest : List Op} {start : Option (Controller × List Op)}

/-- A step of one controller, seen by all. -/
theorem LeaseInv.own (h : LeaseInv selects s) (hpanic : s₁.panic = false)
    (hpass : PassInv selects s₁ k (ops ++ rest)) (es : List Event)
    (hlog : s₁.log = es ++ s.shared.log) (hes : ∀ k' ≠ k, ∀ e ∈ es, e.aside k' = true)
    (hnot : ∀ k' ≠ k, ∀ lease, .checked k' lease false ∉ es)
    (hused : s₁.used = s.shared.used) (hclock : s₁.clock = s.shared.clock)
    (hstored : StoredFrom s.shared s₁ es)
    (hkeep : ∀ name lease, s₁.leases.lookup name = some lease →
      s.shared.leases.lookup name = some lease)
    (hhist : Pool.Each (Event.Deleting selects) s₁.log) :
    LeaseInv selects ⟨s₁, Function.update s.threads k (ops ++ rest)⟩ := by
  refine ⟨hpanic, fun name lease hl => ?_, fun k' => ?_, hhist⟩
  · dsimp only
    rw [hused]
    exact h.stored name lease (hkeep name lease hl)
  · dsimp only
    by_cases hk : k' = k
    · subst hk
      rw [Function.update_self]
      exact hpass
    · rw [Function.update_of_ne hk]
      refine (h.pass k').aside es hlog (hes k' hk) ?_ ?_ hstored (hnot k' hk)
      · rw [hused]
        exact fun _ hu => hu
      · exact Int.le_of_eq (by rw [hclock])

/-- A deletion that goes through is justified. -/
theorem PassInv.deleting {s : GcState} (h : PassInv selects s k (.delete lease :: rest))
    {stored : Lease} (hl : s.leases.lookup lease.name = some stored)
    (hrv : stored.resourceVersion = lease.resourceVersion) :
    Event.Deleting selects (.deleted k stored (s.clock k)) s.log := by
  have hp := h.pending lease (Or.inr List.mem_cons_self)
  obtain ⟨rfl, hw⟩ := hp.same stored hl hrv
  exact ⟨hp.listed, hp.selected, hw, isLeaseValid_false.mp (h.expired stored List.mem_cons_self)⟩

theorem LeaseInv.exec (h : LeaseInv selects s) (ht : s.threads k = op :: rest)
    (hok : ListsDurations selects s.shared k request op)
    (hex : exec selects s.shared k request op = some (s₁, ops, start)) :
    LeaseInv selects ⟨s₁, Pool.spawn (Function.update s.threads k (ops ++ rest)) start⟩ := by
  have hpass := h.pass k
  rw [ht] at hpass
  cases op with
  | list =>
      have hrest : rest = [] := by simpa using hpass.listing List.mem_cons_self
      subst hrest
      simp only [Leases.exec] at hex
      split at hex <;> cases hex
      · refine h.own h.alive ?_ [_] rfl ?_ ?_ rfl rfl (storedFrom_same (by simp) rfl)
          (fun _ _ hl => hl) ⟨trivial, h.history⟩
        · rw [List.append_nil]
          exact PassInv.list h.stored rfl hok
        · intro k' hk e he
          rw [List.mem_singleton.mp he]
          simpa [Event.aside] using Ne.symm hk
        · simp
      · refine h.own h.alive ?_ [] rfl (by simp) (by simp) rfl rfl (storedFrom_same (by simp) rfl)
          (fun _ _ hl => hl) h.history
        exact hpass.step [] rfl (by simp) (fun _ hu => hu) (Int.le_refl _)
          (storedFrom_same (by simp) rfl) (by simp) (by simp) (by simp) (by simp)
  | check lease =>
      have hdur := hpass.duration lease List.mem_cons_self
      simp only [Leases.exec] at hex
      split at hex
      · next hnone =>
          rw [isLeaseValid_eq] at hnone
          split at hnone
          · cases hnone
          · rw [Option.map_eq_none_iff] at hnone
            rw [hnone] at hdur
            cases hdur
      · next valid hvalid =>
          cases hex
          refine h.own h.alive (hpass.check hvalid) [_] rfl (by simp [Event.aside]) ?_ rfl rfl
            (storedFrom_same (by simp) rfl) (fun _ _ hl => hl) ⟨trivial, h.history⟩
          intro k' hk lease' he
          cases List.mem_singleton.mp he
          exact hk rfl
  | delete lease =>
      obtain ⟨rfl, rfl, result, rfl | ⟨stored, hl, hrv, rfl⟩⟩ := exec_delete hex
      · refine h.own h.alive ?_ [_] rfl (by simp [Event.aside]) (by simp) rfl rfl
          (storedFrom_same (by simp) rfl) (fun _ _ hl => hl) ⟨trivial, h.history⟩
        exact hpass.delete [] rfl (by simp) (fun _ hu => hu) (Int.le_refl _)
          (storedFrom_same (by simp) rfl)
      · refine h.own h.alive ?_ [_, _] rfl (by simp [Event.aside]) (by simp) rfl rfl
          (storedFrom_erase (by simp) rfl) (fun name lease' hl' => ?_)
          ⟨trivial, hpass.deleting hl hrv, h.history⟩
        · exact hpass.delete [_] rfl (by simp [Event.aside]) (fun _ hu => hu) (Int.le_refl _)
            (storedFrom_erase (by simp) rfl)
        · rw [GcState.record_leases, GcState.record_leases, GoMap.lookup_erase_if] at hl'
          split at hl'
          · cases hl'
          · exact hl'

theorem LeaseInv.arrive (h : LeaseInv selects s) {a : GcAction}
    (harr : arrive s.shared a = some (s₁, start)) {threads : Controller → List Op}
    (hthreads : Pool.Arrived s.threads start threads) : LeaseInv selects ⟨s₁, threads⟩ := by
  cases a with
  | gc k =>
      simp only [Leases.arrive] at harr
      cases harr
      obtain ⟨hidle, rfl⟩ := hthreads
      refine ⟨h.alive, h.stored, fun k' => ?_, h.history⟩
      dsimp only
      by_cases hk : k' = k
      · subst hk
        have hpass := h.pass k'
        rw [hidle] at hpass
        rw [Function.update_self]
        exact hpass.step [] rfl (by simp) (fun _ hu => hu) (Int.le_refl _)
          (storedFrom_same (by simp) rfl) (by simp) (by simp) (by simp) (by simp)
      · rw [Function.update_of_ne hk]
        exact h.pass k'
  | tick k d =>
      simp only [Leases.arrive] at harr
      cases harr
      rw [show threads = s.threads from hthreads]
      refine ⟨h.alive, h.stored, fun k' => ?_, h.history⟩
      refine (h.pass k').aside [] rfl (by simp) (fun _ hu => hu) ?_ (storedFrom_same (by simp) rfl)
        (by simp)
      dsimp only
      by_cases hk : k' = k
      · subst hk
        rw [Function.update_self]
        exact Int.le_add_of_nonneg_right (Int.natCast_nonneg d)
      · exact Int.le_of_eq (by rw [Function.update_of_ne hk])
  | write lease =>
      simp only [Leases.arrive] at harr
      split at harr
      · cases harr
      · next hfresh =>
          cases harr
          rw [show threads = s.threads from hthreads]
          refine ⟨h.alive, fun name lease' hl => ?_, fun k' => ?_, trivial, h.history⟩
          · dsimp only at hl ⊢
            rw [GcState.record_leases, GoMap.lookup_insert_if] at hl
            rw [GcState.record_used]
            split at hl
            · next hname =>
                cases hl
                exact ⟨hname.symm, by rw [hname]; exact List.mem_cons_self⟩
            · obtain ⟨h1, h2⟩ := h.stored name lease' hl
              exact ⟨h1, List.mem_cons_of_mem _ h2⟩
          · refine (h.pass k').aside [_] rfl (by simp [Event.aside]) ?_ (Int.le_refl _) ?_ (by simp)
            · exact fun _ hu => List.mem_cons_of_mem _ hu
            · intro name stored hl
              rw [GcState.record_leases, GoMap.lookup_insert_if] at hl
              split at hl
              · next hname =>
                  cases hl
                  rw [hname]
                  exact Or.inr hfresh
              · next hname => exact Or.inl ⟨hl, by simpa using hname⟩
  | remove name =>
      simp only [Leases.arrive] at harr
      cases harr
      rw [show threads = s.threads from hthreads]
      refine ⟨h.alive, fun name' lease' hl => ?_, fun k' => ?_, h.history⟩
      · dsimp only at hl
        rw [GoMap.lookup_erase_if] at hl
        split at hl
        · cases hl
        · exact h.stored name' lease' hl
      · exact (h.pass k').aside [] rfl (by simp) (fun _ hu => hu) (Int.le_refl _)
          (storedFrom_erase (by simp) rfl) (by simp)

end Runs

theorem controllers_inv {okArrive : GcState → GcAction → Prop}
    {s : System.State GcState Controller Op}
    (h : Reach (controllers selects).step (System.Allowed (ListsDurations selects) okArrive)
      newControllers s) : LeaseInv selects s := by
  refine System.invariant_state (LeaseInv selects) ?_ ?_ ?_ h
  · refine ⟨rfl, (fun name lease hl => nomatch hl), fun k => ?_, trivial⟩
    exact ⟨(fun hl => nomatch hl), by simp [newControllers], (fun lease hl => nomatch hl),
      (fun lease hl => nomatch hl), (fun items hit => nomatch hit), (fun lease hc => nomatch hc)⟩
  · intro s k request o rest s₁ ops start _ hinv _ ht hok hex
    exact hinv.exec ht hok hex
  · intro s a s₁ start threads _ hinv _ _ harr hthreads
    exact hinv.arrive harr hthreads

/-! ## Safety -/

structure GcSafe (selects : Controller → List (String × String) → Bool)
    (s : System.State GcState Controller Op) : Prop where
  /-- A lease that was deleted had been listed by this pass and matched then,
  was not written since, and was expired when it was deleted. -/
  deleted : ∀ later k stored now earlier,
    s.shared.log = later ++ Event.deleted k stored now :: earlier →
      (∃ items, lastListed k earlier = some items ∧ stored ∈ items) ∧
        selects k stored.labels = true ∧ .written stored.name ∉ sinceListed k earlier ∧
        (stored.lastRenewTime = none ∨ stored.ExpiredAt now)
  /-- A controller takes nothing away without such a deletion. -/
  recorded : ∀ k request op rest s₁ ops start, s.threads k = op :: rest →
    exec selects s.shared k request op = some (s₁, ops, start) →
    ∀ name stored, s.shared.leases.lookup name = some stored →
      s₁.leases.lookup name = some stored ∨ .deleted k stored (s.shared.clock k) ∈ s₁.log
  /-- A pass can always go on, whatever the API server answered. -/
  continues : ∀ k op rest request, s.threads k = op :: rest →
    ((controllers selects).step s (.run k request)).isSome = true
  /-- When it is over, every listed lease was checked, and every one found
  expired had its delete attempted. -/
  processed : ∀ k items, s.threads k = [] → lastListed k s.shared.log = some items →
    ∀ lease ∈ items, ∃ valid, .checked k lease valid ∈ sinceListed k s.shared.log ∧
      (valid = false → ∃ result, .attempted k lease result ∈ sinceListed k s.shared.log)

theorem exec_isSome (s : GcState) (k : Controller) (request : Request) (op : Op) :
    (exec selects s k request op).isSome = true := by
  cases op <;> simp only [exec]
  · split <;> rfl
  · split <;> rfl
  · cases request <;> rfl

/-- For any number of controllers, any writes and deletions by others and any
failures of requests, as long as the leases listed carry a duration. -/
theorem gc_safe {s : System.State GcState Controller Op}
    (h : Reach (controllers selects).step
      (System.Allowed (ListsDurations selects) fun _ _ => True) newControllers s) :
    GcSafe selects s := by
  have hinv := controllers_inv h
  refine ⟨fun later k stored now earlier hlog => ?_,
    fun k request op rest s₁ ops start ht hex => ?_,
    fun k op rest request ht => ?_, fun k items hidle hit lease hin => ?_⟩
  · have hhist := hinv.history
    rw [hlog] at hhist
    clear hlog
    induction later with
    | nil => exact hhist.1
    | cons e later ih => exact ih hhist.2
  · intro name stored hl
    cases op with
    | list =>
        simp only [exec] at hex
        split at hex <;> cases hex <;> exact Or.inl hl
    | check lease =>
        simp only [exec] at hex
        split at hex <;> cases hex <;> exact Or.inl hl
    | delete lease =>
        obtain ⟨-, -, result, rfl | ⟨stored', hl', -, rfl⟩⟩ := exec_delete hex
        · exact Or.inl hl
        · by_cases hname : name = lease.name
          · subst hname
            rw [hl] at hl'
            cases hl'
            exact Or.inr (by simp)
          · rw [GcState.record_leases, GcState.record_leases, GoMap.lookup_erase_if, if_neg hname]
            exact Or.inl hl
  · obtain ⟨⟨s₁, ops, start⟩, hex⟩ := Option.isSome_iff_exists.mp
      (@exec_isSome selects s.shared k request op)
    simp only [System.step, controllers, hinv.alive, ht, hex]
    cases start with
    | none => rfl
    | some st => rfl
  · have hpass := hinv.pass k
    rw [hidle] at hpass
    rcases hpass.checked items hit lease hin with ⟨valid, hc⟩ | hc
    · refine ⟨valid, hc, fun hv => ?_⟩
      subst hv
      exact (hpass.attempted lease hc).resolve_right List.not_mem_nil
    · cases hc

/-- Two leases have expired when the pass lists them. One is renewed before its
delete, which the API server rejects; the other one goes. -/
theorem gc_safe_renewed :
    ∃ s : System.State GcState Controller Op,
      Reach (controllers fun _ _ => true).step
        (System.Allowed (ListsDurations fun _ _ => true) fun _ _ => True) newControllers s ∧
        (∃ stored now, .deleted 0 stored now ∈ s.shared.log ∧ stored.name = "a") ∧
        (∃ lease, .attempted 0 lease .conflict ∈ s.shared.log ∧ lease.name = "b") ∧
        (s.shared.leases.lookup "b").isSome = true ∧ GcSafe (fun _ _ => true) s := by
  let lease := fun (name rv : String) (renew : Time) =>
    ({ name := name, resourceVersion := rv, renewTime := some renew,
       leaseDurationSeconds := some 1 } : Lease)
  let acts : List (System.Action Controller GcAction Request) :=
    [.arrive (.write (lease "a" "1" 0)), .arrive (.write (lease "b" "2" 0)),
      .arrive (.tick 0 3000000000), .arrive (.gc 0), .run 0 .answered, .run 0 .answered,
      .arrive (.write (lease "b" "3" 3000000000)), .run 0 .answered, .run 0 .answered,
      .run 0 .answered]
  have hrun : ∃ s, run (controllers fun _ _ => true).step newControllers acts = some s ∧
      .deleted 0 (lease "a" "1" 0) 3000000000 ∈ s.shared.log ∧
      .attempted 0 (lease "b" "2" 0) .conflict ∈ s.shared.log ∧
      (s.shared.leases.lookup "b").isSome = true :=
    ⟨_, rfl, by decide, by decide, by decide⟩
  obtain ⟨s, hs, h1, h2, h3⟩ := hrun
  have hreach : Reach (controllers fun _ _ => true).step
      (System.Allowed (ListsDurations fun _ _ => true) fun _ _ => True) newControllers s :=
    reach_of_run hs (by decide)
  exact ⟨s, hreach, ⟨_, _, h1, rfl⟩, ⟨_, h2, rfl⟩, h3, gc_safe hreach⟩

/-- A lease that was never acquired has no time to expire at; it is deleted
all the same. -/
theorem gc_deletes_never_acquired :
    ∃ s : System.State GcState Controller Op,
      Reach (controllers fun _ _ => true).step
        (System.Allowed (ListsDurations fun _ _ => true) fun _ _ => True) newControllers s ∧
        ∃ stored now, .deleted 0 stored now ∈ s.shared.log ∧
          stored.leaseDurationSeconds = some 1 ∧ stored.lastRenewTime = none ∧
          ¬ stored.ExpiredAt now := by
  let lease : Lease := { name := "a", resourceVersion := "1", leaseDurationSeconds := some 1 }
  let acts : List (System.Action Controller GcAction Request) :=
    [.arrive (.write lease), .arrive (.gc 0), .run 0 .answered, .run 0 .answered, .run 0 .answered]
  have hrun : ∃ s, run (controllers fun _ _ => true).step newControllers acts = some s ∧
      .deleted 0 lease 0 ∈ s.shared.log :=
    ⟨_, rfl, by decide⟩
  obtain ⟨s, hs, hdel⟩ := hrun
  refine ⟨s, reach_of_run hs (by decide), lease, 0, hdel, rfl, rfl, ?_⟩
  rintro ⟨t, d, ht, -, -⟩
  cases ht

end Konnectivity.Server.Leases
