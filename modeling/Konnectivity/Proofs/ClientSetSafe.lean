import Konnectivity.Agent.ClientSet

/-!
# A client of the set is closed once

Five goroutines may want a client gone. `removeClient` compares the pointer
before it acts, so that a goroutine of a client that was replaced leaves the
new one alone. The invariant follows a client through its life: made by
`sync` and seen by nobody else, in the table and open, or closed.
-/

namespace Konnectivity.Agent.ClientSet

open Lib

/-- The paths of `sync`, and the client it has made but not yet placed. -/
inductive Syncing : Option ClientRef → List Op → Prop
  | connectOnce : Syncing none [.connectOnce, .syncWait]
  | clientsCount {n : Int} : Syncing none [.clientsCount n, .syncWait]
  | newAgentClient : Syncing none [.newAgentClient, .syncWait]
  | addClient {c : ClientRef} {n : Int} : Syncing (some c) [.addClient c n, .syncWait]
  | closeDuplicate {c : ClientRef} : Syncing (some c) [.closeDuplicate c, .syncWait]
  | syncWait : Syncing none [.syncWait]
  | shutdown : Syncing none [.shutdown]
  | ended : Syncing none []

/-- The operations of the goroutines of a client. -/
def Op.ofClient : Op → Bool
  | .startProbe _ | .serveLoop _ | .recv _ | .recvErr _ | .probeLoop _ | .streamSend _ => true
  | .removeClient _ _ => true
  | _ => false

/-- The life of every client, `placing` being the one `sync` holds. -/
structure SetInv (s : SetState) (placing : Option ClientRef) : Prop where
  alive : s.panic = none
  registered : ∀ id c, s.clients.lookup id = some c →
    (s.client c).serverID = id ∧ .added c ∈ s.log ∧ .closed c ∉ s.log
  flag : ∀ c, (s.client c).stopCh.closed = true ↔ .closed c ∈ s.log
  closedOnce : ∀ c, s.log.count (.closed c) ≤ 1
  removed : ∀ c, .removed c true ∈ s.log → .closed c ∈ s.log
  removedOnce : ∀ c, s.log.count (.removed c true) ≤ 1
  left : ∀ c, .added c ∈ s.log → (∃ id, s.clients.lookup id = some c) ∨ .closed c ∈ s.log
  duplicate : ∀ c, .duplicate c ∈ s.log → .closed c ∈ s.log
  made : ∀ c, .added c ∈ s.log ∨ .closed c ∈ s.log → c < s.next
  placing : ∀ c, placing = some c → c < s.next ∧ .added c ∉ s.log ∧ .closed c ∉ s.log

/-! ## Closing a client -/

section Close

variable {s : SetState} {placing : Option ClientRef} {c : ClientRef}

/-- `Close` of a client that is open. -/
theorem SetInv.close_eq (h : SetInv s placing) (hc : .closed c ∉ s.log) :
    s.close c = (s.record (.closed c)).setClient c
      { s.client c with stopCh := { (s.client c).stopCh with closed := true } } := by
  have hopen : (s.client c).stopCh.closed = false :=
    Bool.eq_false_iff.mpr fun hf => hc ((h.flag c).mp hf)
  simp [SetState.close, GoChan.close, hopen]

theorem SetInv.flag_close (h : SetInv s placing) (hc : .closed c ∉ s.log) (c' : ClientRef) :
    ((s.close c).client c').stopCh.closed = true ↔ .closed c' ∈ (s.close c).log := by
  rw [h.close_eq hc]
  by_cases hcc : c' = c
  · subst hcc
    rw [SetState.setClient_client, Function.update_self]
    simp
  · rw [SetState.setClient_client, Function.update_of_ne hcc]
    simpa [hcc] using h.flag c'

theorem SetInv.serverID_close (h : SetInv s placing) (hc : .closed c ∉ s.log) (c' : ClientRef) :
    ((s.close c).client c').serverID = (s.client c').serverID := by
  rw [h.close_eq hc]
  by_cases hcc : c' = c
  · subst hcc
    rw [SetState.setClient_client, Function.update_self]
  · rw [SetState.setClient_client, Function.update_of_ne hcc]
    rfl

theorem SetInv.count_close (h : SetInv s placing) (hc : .closed c ∉ s.log) (c' : ClientRef) :
    (s.close c).log.count (.closed c') ≤ 1 := by
  rw [h.close_eq hc, SetState.setClient_log, SetState.record_log]
  by_cases hcc : c' = c
  · subst hcc
    rw [List.count_cons_self, List.count_eq_zero.mpr hc]
  · rw [List.count_cons_of_ne (by simpa using Ne.symm hcc)]
    exact h.closedOnce c'

/-- A registered client is closed and leaves the table. -/
theorem SetInv.closeAndDelete (h : SetInv s placing) {id : String}
    (hl : s.clients.lookup id = some c) : SetInv (s.closeAndDelete id c) placing := by
  obtain ⟨-, hadded, hc⟩ := h.registered id c hl
  have heq := h.close_eq hc
  have hlog : (s.closeAndDelete id c).log = .closed c :: s.log := by
    rw [SetState.closeAndDelete, heq]
    rfl
  have hclients : (s.closeAndDelete id c).clients = s.clients.erase id := by
    rw [SetState.closeAndDelete, heq]
    rfl
  have hother : ∀ id' c', (s.clients.erase id).lookup id' = some c' →
      s.clients.lookup id' = some c' ∧ c' ≠ c := by
    intro id' c' hl'
    rw [GoMap.lookup_erase_if] at hl'
    split at hl'
    · cases hl'
    · next hne =>
        refine ⟨hl', ?_⟩
        rintro rfl
        exact hne ((h.registered id' c' hl').1.symm.trans (h.registered id c' hl).1)
  refine ⟨?_, fun id' c' hl' => ?_, fun c' => ?_, fun c' => ?_, fun c' hr => ?_, fun c' => ?_,
    fun c' ha => ?_, fun c' hd => ?_, fun c' hm => ?_, fun c' hp => ?_⟩
  · rw [SetState.closeAndDelete, heq]
    exact h.alive
  · rw [hclients] at hl'
    obtain ⟨hl', hcc⟩ := hother id' c' hl'
    obtain ⟨h1, h2, h3⟩ := h.registered id' c' hl'
    refine ⟨(h.serverID_close hc c').trans h1, ?_, ?_⟩
    · rw [hlog]
      exact List.mem_cons_of_mem _ h2
    · rw [hlog]
      simpa [hcc] using h3
  · exact h.flag_close hc c'
  · exact h.count_close hc c'
  · rw [hlog] at hr ⊢
    exact List.mem_cons_of_mem _ (h.removed c' (by simpa using hr))
  · rw [hlog, List.count_cons_of_ne (by simp)]
    exact h.removedOnce c'
  · rw [hlog] at ha ⊢
    rw [hclients]
    rcases h.left c' (by simpa using ha) with ⟨id', hl'⟩ | hcl
    · by_cases hcc : c' = c
      · exact Or.inr (by rw [hcc]; exact List.mem_cons_self)
      · refine Or.inl ⟨id', ?_⟩
        rw [GoMap.lookup_erase_if, if_neg]
        · exact hl'
        · rintro rfl
          rw [hl] at hl'
          exact hcc (Option.some.inj hl').symm
    · exact Or.inr (List.mem_cons_of_mem _ hcl)
  · rw [hlog] at hd ⊢
    exact List.mem_cons_of_mem _ (h.duplicate c' (by simpa using hd))
  · have hnext : (s.closeAndDelete id c).next = s.next := by
      rw [SetState.closeAndDelete, heq]
      rfl
    rw [hnext]
    rw [hlog] at hm
    rcases hm with hm | hm
    · exact h.made c' (Or.inl (by simpa using hm))
    · rcases List.mem_cons.mp hm with hm | hm
      · cases hm
        exact h.made c (Or.inl hadded)
      · exact h.made c' (Or.inr hm)
  · obtain ⟨h1, h2, h3⟩ := h.placing c' hp
    have hcc : c' ≠ c := by
      rintro rfl
      exact h2 hadded
    rw [hlog]
    refine ⟨?_, by simpa using h2, by simpa [hcc] using h3⟩
    rw [SetState.closeAndDelete, heq]
    exact h1

/-- `shutdown`. -/
theorem SetInv.shutdown {l : List (Sigma fun _ : String => ClientRef)} {s : SetState}
    (h : SetInv s placing) (hl : ∀ e ∈ l, s.clients.lookup e.1 = some e.2) (hnd : l.NodupKeys) :
    SetInv (l.foldl (fun s e => s.closeAndDelete e.1 e.2) s) placing := by
  induction l generalizing s with
  | nil => exact h
  | cons e l ih =>
      have he := hl e List.mem_cons_self
      rw [List.nodupKeys_cons] at hnd
      refine ih (h.closeAndDelete he) (fun e' he' => ?_) hnd.2
      change (s.closeAndDelete e.1 e.2).clients.lookup e'.1 = some e'.2
      rw [SetState.closeAndDelete, h.close_eq (h.registered _ _ he).2.2]
      dsimp only [SetState.setClient_clients, SetState.record_clients]
      rw [GoMap.lookup_erase_if, if_neg]
      · exact hl e' (List.mem_cons_of_mem _ he')
      · intro hkey
        exact hnd.1 (hkey ▸ List.mem_map_of_mem he')

end Close

/-! ## Steps -/

section Steps

variable {s s₁ : SetState} {placing : Option ClientRef} {c : ClientRef}

/-- A step that neither closes nor places a client. -/
theorem SetInv.quiet (h : SetInv s placing) (es : List Event) (hlog : s₁.log = es ++ s.log)
    (hes : ∀ e ∈ es, ∀ c, e ≠ .added c ∧ e ≠ .closed c ∧ e ≠ .removed c true ∧ e ≠ .duplicate c)
    (hclients : s₁.clients = s.clients) (hnext : s₁.next = s.next) (hpanic : s₁.panic = s.panic)
    (hclient : ∀ c, (s₁.client c).serverID = (s.client c).serverID ∧
      (s₁.client c).stopCh = (s.client c).stopCh) : SetInv s₁ placing := by
  have hmem : ∀ {e c}, (e = .added c ∨ e = .closed c ∨ e = .removed c true ∨ e = .duplicate c) →
      (e ∈ s₁.log ↔ e ∈ s.log) := by
    intro e c he
    rw [hlog, List.mem_append]
    refine or_iff_right fun hin => ?_
    obtain ⟨h1, h2, h3, h4⟩ := hes e hin c
    rcases he with he | he | he | he
    exacts [h1 he, h2 he, h3 he, h4 he]
  have hcount : ∀ {e c}, (e = .closed c ∨ e = .removed c true) →
      s₁.log.count e = s.log.count e := by
    intro e c he
    rw [hlog, List.count_append, List.count_eq_zero.mpr, Nat.zero_add]
    intro hin
    obtain ⟨-, h2, h3, -⟩ := hes e hin c
    rcases he with he | he
    exacts [h2 he, h3 he]
  have hadded : ∀ c, .added c ∈ s₁.log ↔ .added c ∈ s.log := fun c => hmem (Or.inl rfl)
  have hclosed : ∀ c, .closed c ∈ s₁.log ↔ .closed c ∈ s.log := fun c => hmem (Or.inr (Or.inl rfl))
  refine ⟨hpanic ▸ h.alive, fun id c hl => ?_, fun c => ?_, fun c => ?_, fun c hr => ?_,
    fun c => ?_, fun c ha => ?_, fun c hd => ?_, fun c hm => ?_, fun c hp => ?_⟩
  · rw [(hclient c).1, hadded, hclosed]
    exact h.registered id c (hclients ▸ hl)
  · rw [(hclient c).2, hclosed]
    exact h.flag c
  · rw [hcount (Or.inl rfl)]
    exact h.closedOnce c
  · rw [hclosed]
    exact h.removed c ((hmem (Or.inr (Or.inr (Or.inl rfl)))).mp hr)
  · rw [hcount (Or.inr rfl)]
    exact h.removedOnce c
  · rw [hclients, hclosed]
    exact h.left c ((hadded c).mp ha)
  · rw [hclosed]
    exact h.duplicate c ((hmem (Or.inr (Or.inr (Or.inr rfl)))).mp hd)
  · rw [hnext]
    exact h.made c (hm.imp (hadded c).mp (hclosed c).mp)
  · rw [hnext, hadded, hclosed]
    exact h.placing c hp

/-- `newAgentClient` returns a client nobody has seen. -/
theorem SetInv.newAgentClient (h : SetInv s none) {serverID : String} :
    SetInv (({ s with next := s.next + 1 }.setClient s.next { serverID := serverID }).record
      (.connected s.next)) (some s.next) := by
  have hfresh : .added s.next ∉ s.log ∧ .closed s.next ∉ s.log := by
    constructor
    · exact fun ha => Nat.lt_irrefl _ (h.made s.next (Or.inl ha))
    · exact fun hc => Nat.lt_irrefl _ (h.made s.next (Or.inr hc))
  refine ⟨h.alive, fun id c hl => ?_, fun c => ?_, fun c => ?_, fun c hr => ?_, fun c => ?_,
    fun c ha => ?_, fun c hd => ?_, fun c hm => ?_, fun c hp => ?_⟩
  · obtain ⟨h1, h2, h3⟩ := h.registered id c hl
    have hne : c ≠ s.next := by
      rintro rfl
      exact hfresh.1 h2
    refine ⟨?_, by simpa using h2, by simpa using h3⟩
    rw [SetState.record_client, SetState.setClient_client, Function.update_of_ne hne]
    exact h1
  · rw [SetState.record_client, SetState.setClient_client, SetState.record_log]
    by_cases hne : c = s.next
    · subst hne
      rw [Function.update_self]
      simpa using hfresh.2
    · rw [Function.update_of_ne hne]
      simpa using h.flag c
  · simpa using h.closedOnce c
  · simpa using h.removed c (by simpa using hr)
  · simpa using h.removedOnce c
  · simpa using h.left c (by simpa using ha)
  · simpa using h.duplicate c (by simpa using hd)
  · have hlt := h.made c (by simpa using hm)
    exact Nat.lt_succ_of_lt hlt
  · cases hp
    refine ⟨Nat.lt_succ_self _, by simpa using hfresh.1, by simpa using hfresh.2⟩

/-- `AddClient` installs it. -/
theorem SetInv.addClient (h : SetInv s (some c)) {count : Int}
    (hnone : s.clients.lookup (s.client c).serverID = none) :
    SetInv ({ s with
      clients := s.clients.insert (s.client c).serverID c
      lastReceivedServerCount := count }.record (.added c)) none := by
  obtain ⟨hlt, hadded, hclosed⟩ := h.placing c rfl
  refine ⟨h.alive, fun id c' hl => ?_, fun c' => ?_, fun c' => ?_, fun c' hr => ?_, fun c' => ?_,
    fun c' ha => ?_, fun c' hd => ?_, fun c' hm => ?_, fun c' hp => nomatch hp⟩
  · rw [SetState.record_clients, GoMap.lookup_insert_if] at hl
    split at hl
    · next hid =>
        cases hl
        exact ⟨hid.symm, List.mem_cons_self, by simpa using hclosed⟩
    · obtain ⟨h1, h2, h3⟩ := h.registered id c' hl
      exact ⟨h1, List.mem_cons_of_mem _ h2, by simpa using h3⟩
  · simpa using h.flag c'
  · simpa using h.closedOnce c'
  · simpa using h.removed c' (by simpa using hr)
  · simpa using h.removedOnce c'
  · rw [SetState.record_clients]
    rcases List.mem_cons.mp ha with heq | ha
    · cases heq
      exact Or.inl ⟨_, AList.lookup_insert _⟩
    · rcases h.left c' ha with ⟨id, hl⟩ | hcl
      · refine Or.inl ⟨id, ?_⟩
        rw [GoMap.lookup_insert_if, if_neg]
        · exact hl
        · rintro rfl
          rw [hnone] at hl
          cases hl
      · exact Or.inr (List.mem_cons_of_mem _ hcl)
  · simpa using h.duplicate c' (by simpa using hd)
  · rcases hm with hm | hm
    · rcases List.mem_cons.mp hm with heq | hm
      · cases heq
        exact hlt
      · exact h.made c' (Or.inl hm)
    · exact h.made c' (Or.inr (by simpa using hm))

/-- `connectOnce` closes the client `AddClient` refused. -/
theorem SetInv.closeDuplicate (h : SetInv s (some c)) :
    SetInv ((s.close c).record (.duplicate c)) none := by
  obtain ⟨hlt, hadded, hclosed⟩ := h.placing c rfl
  have heq := h.close_eq hclosed
  have hlog : (s.close c).log = .closed c :: s.log := by
    rw [heq]
    rfl
  have hclients : (s.close c).clients = s.clients := by
    rw [heq]
    rfl
  refine ⟨?_, fun id c' hl => ?_, fun c' => ?_, fun c' => ?_, fun c' hr => ?_, fun c' => ?_,
    fun c' ha => ?_, fun c' hd => ?_, fun c' hm => ?_, fun c' hp => nomatch hp⟩
  · rw [heq]
    exact h.alive
  · rw [SetState.record_clients, hclients] at hl
    obtain ⟨h1, h2, h3⟩ := h.registered id c' hl
    have hcc : c' ≠ c := by
      rintro rfl
      exact hadded h2
    refine ⟨(h.serverID_close hclosed c').trans h1, ?_, ?_⟩
    · simpa [hlog] using h2
    · simpa [hlog, hcc] using h3
  · simpa using h.flag_close hclosed c'
  · simpa using h.count_close hclosed c'
  · have := h.removed c' (by simpa [hlog] using hr)
    simp [hlog, this]
  · rw [SetState.record_log, hlog, List.count_cons_of_ne (by simp), List.count_cons_of_ne (by simp)]
    exact h.removedOnce c'
  · rw [SetState.record_clients, hclients]
    refine (h.left c' (by simpa [hlog] using ha)).imp_right fun hcl => ?_
    simp [hlog, hcl]
  · rw [SetState.record_log, hlog] at hd ⊢
    by_cases hcc : c' = c
    · simp [hcc]
    · have := h.duplicate c' (by simpa [hcc] using hd)
      simp [this]
  · have hnext : (s.close c).next = s.next := by
      rw [heq]
      rfl
    rw [SetState.record_next, hnext]
    by_cases hcc : c' = c
    · rw [hcc]
      exact hlt
    · exact h.made c' (by simpa [hlog, hcc] using hm)

/-- `removeClient`. -/
theorem SetInv.removeClient (h : SetInv s placing)
    (hl : s.clients.lookup (s.client c).serverID = some c) :
    SetInv ((s.closeAndDelete (s.client c).serverID c).record (.removed c true)) placing := by
  have hnew := h.closeAndDelete hl
  obtain ⟨-, -, hopen⟩ := h.registered _ c hl
  have hlog : (s.closeAndDelete (s.client c).serverID c).log = .closed c :: s.log := by
    rw [SetState.closeAndDelete, h.close_eq hopen]
    rfl
  have hclosed : .closed c ∈ (s.closeAndDelete (s.client c).serverID c).log := by
    rw [hlog]
    exact List.mem_cons_self
  refine ⟨hnew.alive, fun id c' hl' => ?_, fun c' => ?_, fun c' => ?_, fun c' hr => ?_,
    fun c' => ?_, fun c' ha => ?_, fun c' hd => ?_, fun c' hm => ?_, fun c' hp => ?_⟩
  · simpa using hnew.registered id c' hl'
  · simpa using hnew.flag c'
  · simpa using hnew.closedOnce c'
  · rcases List.mem_cons.mp hr with heq | hr
    · cases heq
      exact List.mem_cons_of_mem _ hclosed
    · exact List.mem_cons_of_mem _ (hnew.removed c' hr)
  · by_cases hcc : c' = c
    · subst hcc
      have hnot : .removed c' true ∉ s.log := fun hr => hopen (h.removed c' hr)
      rw [SetState.record_log, List.count_cons_self, List.count_eq_zero.mpr]
      rw [hlog]
      simpa using hnot
    · rw [SetState.record_log, List.count_cons_of_ne (by simpa using Ne.symm hcc)]
      exact hnew.removedOnce c'
  · simpa using hnew.left c' (by simpa using ha)
  · simpa using hnew.duplicate c' (by simpa using hd)
  · exact hnew.made c' (by simpa using hm)
  · simpa using hnew.placing c' hp

end Steps

/-! ## Runs -/

/-- Where the goroutines are. -/
structure ClientSetInv (s : System.State SetState Tid Op) : Prop where
  sync : ∃ placing, Syncing placing (s.threads .sync) ∧ SetInv s.shared placing
  clients : ∀ t, t ≠ .sync → ∀ o ∈ s.threads t, o.ofClient = true
  refused : ∀ c, .refused c ∈ s.shared.log →
    .closed c ∈ s.shared.log ∨ .closeDuplicate c ∈ s.threads .sync

theorem close_log (s : SetState) (c : ClientRef) : (s.close c).log = .closed c :: s.log := by
  unfold SetState.close
  split <;> rfl

theorem closeAndDelete_log (s : SetState) (id : String) (c : ClientRef) :
    (s.closeAndDelete id c).log = .closed c :: s.log :=
  close_log s c

theorem shutdown_log (l : List (Sigma fun _ : String => ClientRef)) (s : SetState) :
    (l.foldl (fun s e => s.closeAndDelete e.1 e.2) s).log =
      (l.map fun e => .closed e.2).reverse ++ s.log := by
  induction l generalizing s with
  | nil => rfl
  | cons e l ih =>
      rw [List.foldl_cons, ih]
      simp [closeAndDelete_log]

section Runs

variable {cfg : ClientSetConfig} {s : System.State SetState Tid Op} {s₁ : SetState} {t : Tid}
  {ch : Choice} {op : Op} {ops rest : List Op} {start : Option (Tid × List Op)}

/-- The goroutines that are started belong to a client. -/
theorem exec_started {s : SetState} (hex : exec cfg s t ch op = some (s₁, ops, start)) {x : Tid}
    {ops' : List Op} (hs : start = some (x, ops')) :
    x ≠ .sync ∧ ∀ o ∈ ops', o.ofClient = true := by
  subst hs
  cases op <;> simp only [exec] at hex <;> repeat' split at hex
  all_goals cases hex
  · exact ⟨by simp, by simp [Op.ofClient]⟩
  · exact ⟨by simp, by simp [Op.ofClient]⟩

/-- Only `AddClient` refuses, and what it refuses is closed next. -/
theorem exec_refused {s : SetState} (hex : exec cfg s t ch op = some (s₁, ops, start)) :
    ∃ es, s₁.log = es ++ s.log ∧ (∀ c, .refused c ∈ es → .closeDuplicate c ∈ ops) ∧
      ∀ c, op = .closeDuplicate c → .closed c ∈ es := by
  cases op with
  | shutdown =>
      simp only [exec] at hex
      cases hex
      exact ⟨_, shutdown_log _ s, by simp, by simp⟩
  | closeDuplicate c =>
      simp only [exec] at hex
      cases hex
      refine ⟨[_, _], by rw [SetState.record_log, close_log]; rfl, by simp, fun c' hc => ?_⟩
      cases hc
      simp
  | removeClient c remover =>
      simp only [exec] at hex
      split at hex <;> cases hex
      · refine ⟨[.removed c true, .closed c], ?_, by simp, by simp⟩
        rw [SetState.record_log, closeAndDelete_log]
        rfl
      · exact ⟨[_], rfl, by simp, by simp⟩
  | _ =>
      simp only [exec] at hex
      repeat' split at hex
      all_goals cases hex
      all_goals first
        | exact ⟨[], rfl, by simp, by simp⟩
        | exact ⟨[_], rfl, by simp, by simp⟩

/-- The steps of `sync`. -/
theorem Syncing.exec {s : SetState} {placing : Option ClientRef}
    (hsync : Syncing placing (op :: rest)) (h : SetInv s placing)
    (hex : exec cfg s .sync ch op = some (s₁, ops, start)) :
    ∃ placing', Syncing placing' (ops ++ rest) ∧ SetInv s₁ placing' := by
  cases hsync with
  | connectOnce =>
      simp only [ClientSet.exec] at hex
      cases hex
      refine ⟨none, ?_, h⟩
      split
      · exact .syncWait
      · exact .clientsCount
  | clientsCount =>
      simp only [ClientSet.exec] at hex
      split at hex <;> cases hex
      · exact ⟨none, .syncWait, h⟩
      · exact ⟨none, .newAgentClient, h⟩
  | newAgentClient =>
      simp only [ClientSet.exec] at hex
      split at hex <;> cases hex
      · exact ⟨none, .syncWait, h⟩
      · exact ⟨_, .addClient, h.newAgentClient⟩
  | addClient =>
      simp only [ClientSet.exec] at hex
      split at hex <;> cases hex
      · exact ⟨_, .closeDuplicate, h.quiet [_] rfl (by simp) rfl rfl rfl fun _ => ⟨rfl, rfl⟩⟩
      · next hnone => exact ⟨none, .syncWait, h.addClient hnone⟩
  | closeDuplicate =>
      simp only [ClientSet.exec] at hex
      cases hex
      exact ⟨none, .syncWait, h.closeDuplicate⟩
  | syncWait =>
      simp only [ClientSet.exec] at hex
      cases hex
      refine ⟨none, ?_, h⟩
      split
      · exact .shutdown
      · exact .connectOnce
  | shutdown =>
      simp only [ClientSet.exec] at hex
      cases hex
      refine ⟨none, .ended, h.shutdown (fun e he => ?_) s.clients.nodupKeys⟩
      exact GoMap.lookup_eq_some_iff.mpr he

/-- The steps of the goroutines of a client. -/
theorem SetInv.exec_client {s : SetState} {placing : Option ClientRef} (h : SetInv s placing)
    (hop : op.ofClient = true) (hex : exec cfg s t ch op = some (s₁, ops, start)) :
    SetInv s₁ placing ∧ ∀ o ∈ ops, o.ofClient = true := by
  cases op with
  | startProbe c =>
      simp only [exec] at hex
      cases hex
      refine ⟨h.quiet [] rfl (by simp) rfl rfl rfl fun c' => ?_, by simp⟩
      rw [SetState.setClient_client]
      by_cases hcc : c' = c
      · subst hcc
        rw [Function.update_self]
        exact ⟨rfl, rfl⟩
      · rw [Function.update_of_ne hcc]
        exact ⟨rfl, rfl⟩
  | serveLoop c =>
      simp only [exec] at hex
      cases hex
      refine ⟨h, ?_⟩
      split <;> simp [Op.ofClient]
  | recv c =>
      simp only [exec] at hex
      cases hex
      refine ⟨h, ?_⟩
      split <;> simp [Op.ofClient]
  | recvErr c =>
      simp only [exec] at hex
      cases hex
      refine ⟨h, ?_⟩
      split <;> simp [Op.ofClient]
  | probeLoop c =>
      simp only [exec] at hex
      repeat' split at hex
      all_goals cases hex
      · exact ⟨h, by simp [Op.ofClient]⟩
      · exact ⟨h, by simp [Op.ofClient]⟩
      · exact ⟨h, by simp⟩
  | streamSend c =>
      simp only [exec] at hex
      cases hex
      refine ⟨h, ?_⟩
      split <;> simp [Op.ofClient]
  | removeClient c remover =>
      simp only [exec] at hex
      split at hex <;> cases hex
      · next hl => exact ⟨h.removeClient hl, by simp⟩
      · exact ⟨h.quiet [_] rfl (by simp) rfl rfl rfl fun _ => ⟨rfl, rfl⟩, by simp⟩
  | _ => cases hop

theorem ClientSetInv.exec (h : ClientSetInv s) (ht : s.threads t = op :: rest)
    (hex : exec cfg s.shared t ch op = some (s₁, ops, start)) :
    ClientSetInv ⟨s₁, Pool.spawn (Function.update s.threads t (ops ++ rest)) start⟩ := by
  have hsync : Pool.spawn (Function.update s.threads t (ops ++ rest)) start .sync =
      Function.update s.threads t (ops ++ rest) .sync :=
    Pool.spawn_of_ne fun ops' hs => (exec_started hex hs).1 rfl
  obtain ⟨placing, hs, hinv⟩ := h.sync
  have hrefused : ∀ c, .refused c ∈ s₁.log → .closed c ∈ s₁.log ∨
      .closeDuplicate c ∈ Function.update s.threads t (ops ++ rest) .sync := by
    intro c hr
    obtain ⟨es, hlog, hnew, hclose⟩ := exec_refused hex
    rw [hlog] at hr ⊢
    rcases List.mem_append.mp hr with hr | hr
    · right
      have htt : t = .sync := by
        by_contra htt
        have hop := h.clients t htt op (by rw [ht]; exact List.mem_cons_self)
        have := (hinv.exec_client hop hex).2 _ (hnew c hr)
        cases this
      subst htt
      rw [Function.update_self]
      exact List.mem_append_left _ (hnew c hr)
    · rcases h.refused c hr with hc | hc
      · exact Or.inl (List.mem_append_right _ hc)
      · by_cases htt : t = .sync
        · subst htt
          rw [ht] at hc
          rcases List.mem_cons.mp hc with hc | hc
          · exact Or.inl (List.mem_append_left _ (hclose c hc.symm))
          · right
            rw [Function.update_self]
            exact List.mem_append_right _ hc
        · right
          rw [Function.update_of_ne (Ne.symm htt)]
          exact hc
  rw [← hsync] at hrefused
  by_cases htt : t = .sync
  · subst htt
    rw [ht] at hs
    obtain ⟨placing', hs', hinv'⟩ := hs.exec hinv hex
    refine ⟨⟨placing', ?_, hinv'⟩, fun x hx o ho => ?_, hrefused⟩
    · dsimp only
      rw [hsync, Function.update_self]
      exact hs'
    · rcases Pool.mem_of_spawn ho with ho | ⟨ops', hst, ho⟩
      · rw [Function.update_of_ne hx] at ho
        exact h.clients x hx o ho
      · exact (exec_started hex hst).2 o ho
  · have hop := h.clients t htt op (by rw [ht]; exact List.mem_cons_self)
    obtain ⟨hinv', hops⟩ := hinv.exec_client hop hex
    refine ⟨⟨placing, ?_, hinv'⟩, fun x hx o ho => ?_, hrefused⟩
    · dsimp only
      rw [hsync, Function.update_of_ne (Ne.symm htt)]
      exact hs
    · rcases Pool.mem_of_spawn ho with ho | ⟨ops', hst, ho⟩
      · by_cases hxt : x = t
        · subst hxt
          rw [Function.update_self] at ho
          rcases List.mem_append.mp ho with ho | ho
          · exact hops o ho
          · exact h.clients x hx o (by rw [ht]; exact List.mem_cons_of_mem _ ho)
        · rw [Function.update_of_ne hxt] at ho
          exact h.clients x hx o ho
      · exact (exec_started hex hst).2 o ho

theorem ClientSetInv.arrive (h : ClientSetInv s) {a : SetAction}
    (harr : arrive s.shared a = some (s₁, start)) {threads : Tid → List Op}
    (hthreads : Pool.Arrived s.threads start threads) : ClientSetInv ⟨s₁, threads⟩ := by
  obtain ⟨placing, hs, hinv⟩ := h.sync
  have hsame : start = none → SetInv s₁ placing → ∀ es, s₁.log = es ++ s.shared.log →
      (∀ c, .refused c ∉ es) → ClientSetInv ⟨s₁, threads⟩ := by
    rintro rfl hinv' es hlog hes
    rw [show threads = s.threads from hthreads]
    refine ⟨⟨placing, hs, hinv'⟩, h.clients, fun c hr => ?_⟩
    dsimp only at hr ⊢
    rw [hlog] at hr ⊢
    exact (h.refused c ((List.mem_append.mp hr).resolve_left (hes c))).imp_left
      (List.mem_append_right _)
  cases a with
  | drain =>
      simp only [ClientSet.arrive] at harr
      cases harr
      exact hsame rfl (hinv.quiet [] rfl (by simp) rfl rfl rfl fun _ => ⟨rfl, rfl⟩) [] rfl (by simp)
  | stop =>
      simp only [ClientSet.arrive] at harr
      cases harr
      exact hsame rfl (hinv.quiet [] rfl (by simp) rfl rfl rfl fun _ => ⟨rfl, rfl⟩) [] rfl (by simp)
  | send n c =>
      simp only [ClientSet.arrive] at harr
      split at harr <;> cases harr
      obtain ⟨-, rfl⟩ := hthreads
      refine ⟨⟨placing, ?_, hinv⟩, fun x hx o ho => ?_, fun c hr => ?_⟩
      · dsimp only
        rw [Function.update_of_ne (by simp)]
        exact hs
      · dsimp only at ho
        by_cases hxn : x = .sender n
        · subst hxn
          rw [Function.update_self, List.mem_singleton] at ho
          subst ho
          rfl
        · rw [Function.update_of_ne hxn] at ho
          exact h.clients x hx o ho
      · dsimp only
        rw [Function.update_of_ne (by simp)]
        exact h.refused c hr
  | removeClient serverID =>
      simp only [ClientSet.arrive] at harr
      split at harr <;> cases harr
      · exact hsame rfl hinv [] rfl (by simp)
      · next c hl =>
          exact hsame rfl (hinv.closeAndDelete hl) [.closed c] (closeAndDelete_log ..) (by simp)

end Runs

theorem clientSet_inv {cfg : ClientSetConfig} {okExec : SetState → Tid → Choice → Op → Prop}
    {okArrive : SetState → SetAction → Prop} {s : System.State SetState Tid Op}
    (h : Reach (clientSet cfg).step (System.Allowed okExec okArrive) newAgentClientSet s) :
    ClientSetInv s := by
  refine System.invariant_state ClientSetInv ?_ ?_ ?_ h
  · refine ⟨⟨none, .connectOnce, ?_⟩, fun t ht o ho => ?_, (fun c hr => nomatch hr)⟩
    · exact ⟨rfl, (fun id c hl => nomatch hl), fun c => by simp [newAgentClientSet],
        fun c => Nat.zero_le 1, (fun c hr => nomatch hr), fun c => Nat.zero_le 1,
        (fun c ha => nomatch ha), (fun c hd => nomatch hd), by simp [newAgentClientSet],
        (fun c hp => nomatch hp)⟩
    · simp [newAgentClientSet, ht] at ho
  · intro s t ch o rest s₁ ops start _ hinv _ ht _ hex
    exact hinv.exec ht hex
  · intro s a s₁ start threads _ hinv _ _ harr hthreads
    exact hinv.arrive harr hthreads

/-! ## Safety -/

/-- What holds of the clients between any two operations. A client `AddClient`
refused is closed by the next operation of `sync`, before `connectOnce` returns. -/
structure ClientsSafe (s : SetState) (sync : List Op) : Prop where
  noPanic : s.panic = none
  closedOnce : ∀ c, s.log.count (.closed c) ≤ 1
  registered : ∀ id c, s.clients.lookup id = some c →
    (s.client c).serverID = id ∧ .closed c ∉ s.log
  removedOnce : ∀ c, s.log.count (.removed c true) ≤ 1
  left : ∀ c, .added c ∈ s.log → (∀ id, s.clients.lookup id ≠ some c) → .closed c ∈ s.log
  refused : ∀ c, .refused c ∈ s.log → .closed c ∈ s.log ∨ .closeDuplicate c ∈ sync
  duplicate : ∀ c, .duplicate c ∈ s.log → .closed c ∈ s.log

/-- `removeClient(c)` neither closes nor removes another client. -/
def RemovesOnly (cfg : ClientSetConfig) (s : SetState) : Prop :=
  ∀ t ch c remover s₁ ops start, exec cfg s t ch (.removeClient c remover) = some (s₁, ops, start) →
    ∀ c', c' ≠ c → s₁.client c' = s.client c' ∧
      s₁.log.count (.closed c') = s.log.count (.closed c') ∧
      ∀ id, s.clients.lookup id = some c' → s₁.clients.lookup id = some c'

theorem removesOnly {cfg : ClientSetConfig} {s : SetState} {placing : Option ClientRef}
    (h : SetInv s placing) : RemovesOnly cfg s := by
  intro t ch c remover s₁ ops start hex c' hcc
  simp only [exec] at hex
  split at hex <;> cases hex
  · next hl =>
      obtain ⟨-, -, hopen⟩ := h.registered _ c hl
      rw [SetState.closeAndDelete, h.close_eq hopen]
      refine ⟨Function.update_of_ne hcc _ _, ?_, fun id hl' => ?_⟩
      · change List.count _ (.removed c true :: .closed c :: s.log) = _
        rw [List.count_cons_of_ne (by simp), List.count_cons_of_ne (by simpa using Ne.symm hcc)]
      · change (s.clients.erase _).lookup id = some c'
        rw [GoMap.lookup_erase_if, if_neg]
        · exact hl'
        · rintro rfl
          rw [hl] at hl'
          exact hcc (Option.some.inj hl').symm
  · refine ⟨rfl, ?_, fun id hl' => hl'⟩
    rw [SetState.record_log, List.count_cons_of_ne (by simp)]

/-- Whatever `sync`, the goroutines of the clients and the callers of
`RemoveClient` do, no client is closed twice, the table holds open clients
under their own server IDs, `removeClient` concerns its own client only and
succeeds once, and a client that has left or was refused is closed. -/
theorem clientSet_safe {cfg : ClientSetConfig} {s : System.State SetState Tid Op}
    (h : Reach (clientSet cfg).step System.unrestricted
      newAgentClientSet s) :
    ClientsSafe s.shared (s.threads .sync) ∧ RemovesOnly cfg s.shared := by
  obtain ⟨placing, -, hinv⟩ := (clientSet_inv h).sync
  refine ⟨⟨hinv.alive, hinv.closedOnce, fun id c hl => ?_, hinv.removedOnce, fun c ha hout => ?_,
    (clientSet_inv h).refused, hinv.duplicate⟩, removesOnly hinv⟩
  · obtain ⟨h1, -, h3⟩ := hinv.registered id c hl
    exact ⟨h1, h3⟩
  · rcases hinv.left c ha with ⟨id, hl⟩ | hc
    · exact absurd hl (hout id)
    · exact hc

/-- A client whose stream fails is replaced; its own `Serve` then leaves the
replacement alone. -/
theorem clientSet_safe_replaced :
    ∃ s : System.State SetState Tid Op,
      Reach (clientSet ⟨false, false⟩).step
        System.unrestricted newAgentClientSet s ∧
        s.shared.clients.lookup "a" = some 1 ∧ .removed 0 true ∈ s.shared.log ∧
        .removed 0 false ∈ s.shared.log ∧ ClientsSafe s.shared (s.threads .sync) := by
  let connect : Choice := { serverCount := 1, connect := some ("a", 1) }
  let acts : List (System.Action Tid SetAction Choice) :=
    [.run .sync connect, .run .sync connect, .run .sync connect, .run .sync {},
      .run (.serve 0) {}, .run (.serve 0) {}, .run (.serve 0) { ok := false }, .run (.serve 0) {},
      .run (.serve 0) {}, .run .sync {}, .run .sync connect, .run .sync connect, .run .sync connect,
      .run .sync {}, .run (.serve 0) {}]
  have hrun : ∃ s, run (clientSet ⟨false, false⟩).step newAgentClientSet acts = some s ∧
      s.shared.clients.lookup "a" = some 1 ∧ .removed 0 true ∈ s.shared.log ∧
      .removed 0 false ∈ s.shared.log :=
    ⟨_, rfl, by decide, by decide, by decide⟩
  obtain ⟨s, hs, hl, h1, h2⟩ := hrun
  have hreach : Reach (clientSet ⟨false, false⟩).step
      System.unrestricted newAgentClientSet s :=
    reach_of_run hs (by decide)
  exact ⟨s, hreach, hl, h1, h2, (clientSet_safe hreach).1⟩

end Konnectivity.Agent.ClientSet
