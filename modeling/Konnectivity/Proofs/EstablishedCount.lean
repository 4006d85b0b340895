import Konnectivity.Server.Metrics
import Konnectivity.Proofs.Effects

/-!
# The accounts of the established connections

Connections enter `established` in one place and leave it in six, and who
takes one out counts it later. Both sides of the account are lists that are
compared up to order: what was entered against what is in the table and what
was taken out, and for each goroutine what it took out against what it has
counted and still has to count. Each survives one operation, because an
operation that takes entries out brings in exactly as many observations.
-/

namespace Konnectivity

open Lib

/-- A connection with the keys it stands under. -/
abbrev Entry := AgentID × ConnectID × ProxyClientConnection

/-! ## The table as a list -/

namespace Established

def under (a : AgentID) (conns : GoMap ConnectID ProxyClientConnection) : List Entry :=
  conns.entries.map fun e => (a, e.1, e.2)

/-- Every entry of the table. -/
def connections (es : Established) : List Entry := es.entries.flatMap fun e => under e.1 e.2

/-- No agent has an empty map. -/
def NoneEmpty (es : Established) : Prop := ∀ a conns, es.lookup a = some conns → conns.size ≠ 0

variable {es : Established}

theorem getCount_eq (es : Established) : es.getCount = es.connections.length := by
  unfold getCount connections under
  rw [List.length_flatMap]
  simp [GoMap.size]

theorem mem_connections {a : AgentID} {c : ConnectID} {p : ProxyClientConnection} :
    (a, c, p) ∈ es.connections ↔ es.getFrontend a c = some p := by
  constructor
  · intro h
    obtain ⟨⟨a', conns⟩, hconns, he⟩ := List.mem_flatMap.mp h
    obtain ⟨⟨c', p'⟩, hp, heq⟩ := List.mem_map.mp he
    cases heq
    rw [getFrontend, GoMap.lookup_eq_some_iff.mpr hconns]
    exact GoMap.lookup_eq_some_iff.mpr hp
  · intro h
    unfold getFrontend at h
    split at h
    · cases h
    · next conns hconns =>
        exact List.mem_flatMap.mpr ⟨⟨a, conns⟩, GoMap.lookup_eq_some_iff.mp hconns,
          List.mem_map.mpr ⟨⟨c, p⟩, GoMap.lookup_eq_some_iff.mp h, rfl⟩⟩

/-- The entries of one agent and those of the others. -/
theorem connections_erase (es : Established) (a : AgentID) :
    es.connections.Perm (under a ((es.lookup a).getD ∅) ++ connections (es.erase a)) := by
  cases h : es.lookup a with
  | none =>
      rw [GoMap.erase_eq_of_none h]
      exact .refl _
  | some conns => exact (GoMap.entries_erase_perm h).flatMap_right _

theorem put_connections (es : Established) (a : AgentID)
    (conns : GoMap ConnectID ProxyClientConnection) :
    (es.put a conns).connections.Perm (under a conns ++ connections (es.erase a)) := by
  unfold put
  split
  · next hz =>
      have hnil : under a conns = [] := by
        unfold under
        rw [List.length_eq_zero_iff.mp hz, List.map_nil]
      rw [hnil]
      exact .refl _
  · unfold connections
    rw [AList.entries_insert]
    exact .refl _

theorem NoneEmpty.put (h : es.NoneEmpty) (a : AgentID)
    (conns : GoMap ConnectID ProxyClientConnection) : (es.put a conns).NoneEmpty := by
  intro a' conns' hl
  unfold Established.put at hl
  split at hl
  · rw [GoMap.lookup_erase_if] at hl
    split at hl
    · cases hl
    · exact h a' conns' hl
  · next hz =>
      rw [GoMap.lookup_insert_if] at hl
      split at hl
      · injection hl with hl
        exact hl ▸ hz
      · exact h a' conns' hl

theorem add_eq_put (es : Established) (a : AgentID) (c : ConnectID) (p : ProxyClientConnection) :
    es.add a c p = es.put a (((es.lookup a).getD ∅).insert c p) := by
  have hz : GoMap.size (((es.lookup a).getD ∅).insert c p) ≠ 0 := by
    unfold GoMap.size
    rw [AList.entries_insert]
    exact Nat.succ_ne_zero _
  rw [put, if_neg hz, add]

/-- A connection entered under a free key comes on top of the others. -/
theorem add_connections {a : AgentID} {c : ConnectID} {p : ProxyClientConnection}
    (h : es.getFrontend a c = none) :
    (es.add a c p).connections.Perm ((a, c, p) :: es.connections) := by
  have hunder : under a (((es.lookup a).getD ∅).insert c p) =
      (a, c, p) :: under a ((es.lookup a).getD ∅) := by
    rw [getFrontend_eq] at h
    have herase := GoMap.erase_eq_of_none h
    unfold under
    rw [AList.entries_insert]
    exact congrArg (fun conns : GoMap ConnectID ProxyClientConnection =>
      (a, c, p) :: conns.entries.map fun e => (a, e.1, e.2)) herase
  rw [add_eq_put]
  have hput := put_connections es a (((es.lookup a).getD ∅).insert c p)
  rw [hunder] at hput
  exact hput.trans ((connections_erase es a).symm.cons _)

/-! ## Taking entries out -/

/-- The entries that pass the test were taken out and returned, and no others. -/
structure Takes (es : Established) (test : Entry → Bool) (ret : List ProxyClientConnection)
    (es' : Established) : Prop where
  returned : ret.Perm ((es.connections.filter test).map fun e => e.2.2)
  left : es'.connections.Perm (es.connections.filter fun e => !test e)
  noneEmpty : es.NoneEmpty → es'.NoneEmpty

theorem Takes.nothing {test : Entry → Bool} (h : ∀ e ∈ es.connections, test e = false) :
    es.Takes test [] es where
  returned := by
    rw [List.filter_eq_nil_iff.mpr fun e he => by rw [h e he]; exact Bool.false_ne_true]
    exact .nil
  left := by
    rw [List.filter_eq_self.mpr fun e he => by rw [h e he]; rfl]
  noneEmpty := id

theorem Takes.congr {test test' : Entry → Bool} {ret : List ProxyClientConnection}
    {es' : Established} (h : es.Takes test ret es') (heq : ∀ e ∈ es.connections, test e = test' e) :
    es.Takes test' ret es' where
  returned := by
    rw [← List.filter_congr heq]
    exact h.returned
  left := by
    have hnot : ∀ e ∈ es.connections, (!test e) = !test' e := fun e he => by rw [heq e he]
    rw [← List.filter_congr hnot]
    exact h.left
  noneEmpty := h.noneEmpty

/-- Taking out what passes one test, and then what passes another. -/
theorem Takes.trans {test test' : Entry → Bool} {ret ret' : List ProxyClientConnection}
    {es' es'' : Established} (h : es.Takes test ret es') (h' : es'.Takes test' ret' es'') :
    es.Takes (fun e => test e || test' e) (ret ++ ret') es'' where
  returned := by
    have hsplit := List.filter_append_perm test (es.connections.filter fun e => test e || test' e)
    have hfst : (es.connections.filter fun e => test e || test' e).filter test =
        es.connections.filter test := by
      rw [List.filter_filter]
      exact List.filter_congr fun e _ => by cases test e <;> simp
    have hsnd : ((es.connections.filter fun e => test e || test' e).filter fun e => !test e) =
        (es.connections.filter fun e => !test e).filter test' := by
      rw [List.filter_filter, List.filter_filter]
      exact List.filter_congr fun e _ => by cases test e <;> cases test' e <;> rfl
    rw [hfst, hsnd] at hsplit
    have hret' := h'.returned.trans ((h.left.filter test').map fun e => e.2.2)
    refine (h.returned.append hret').trans ?_
    rw [← List.map_append]
    exact hsplit.map _
  left := by
    refine h'.left.trans ((h.left.filter _).trans ?_)
    rw [List.filter_filter]
    refine .of_eq (List.filter_congr fun e _ => ?_)
    cases test e <;> cases test' e <;> rfl
  noneEmpty := fun hes => h'.noneEmpty (h.noneEmpty hes)

/-- The map of one agent is replaced by one without the entries that pass a test. -/
theorem takes_put {a : AgentID} {conns' : GoMap ConnectID ProxyClientConnection}
    {ret : List ProxyClientConnection} (q : ConnectID → ProxyClientConnection → Bool)
    (hret : ret.Perm ((((es.lookup a).getD ∅).entries.filter fun e => q e.1 e.2).map fun e => e.2))
    (hleft : conns'.entries.Perm
      (((es.lookup a).getD ∅).entries.filter fun e => !q e.1 e.2)) :
    es.Takes (fun e => e.1 = a && q e.2.1 e.2.2) ret (es.put a conns') := by
  have hother : ∀ e ∈ connections (es.erase a), e.1 ≠ a := by
    rintro ⟨a', c, p⟩ he ha
    rw [mem_connections, getFrontend_eq, show a' = a from ha, AList.lookup_erase] at he
    cases he
  have hperm := connections_erase es a
  refine ⟨?_, ?_, fun h => h.put a _⟩
  · have hnone : (connections (es.erase a)).filter (fun e => e.1 = a && q e.2.1 e.2.2) = [] :=
      List.filter_eq_nil_iff.mpr fun e he => by simp [hother e he]
    have htaken := (hperm.filter fun e => e.1 = a && q e.2.1 e.2.2).map fun e : Entry => e.2.2
    rw [List.filter_append, hnone, List.append_nil, under, List.filter_map, List.map_map] at htaken
    simp only [Function.comp_def, decide_true, Bool.true_and] at htaken
    exact hret.trans htaken.symm
  · have hall : (connections (es.erase a)).filter (fun e => !(e.1 = a && q e.2.1 e.2.2)) =
        connections (es.erase a) :=
      List.filter_eq_self.mpr fun e he => by simp [hother e he]
    have hkept := hperm.filter fun e => !(e.1 = a && q e.2.1 e.2.2)
    rw [List.filter_append, hall, under, List.filter_map] at hkept
    simp only [Function.comp_def, decide_true, Bool.true_and] at hkept
    exact (put_connections es a _).trans (((hleft.map _).append_right _).trans hkept.symm)

theorem remove_none {a : AgentID} {c : ConnectID} (h : es.getFrontend a c = none) :
    es.remove a c = (none, es) := by
  unfold getFrontend at h
  unfold remove
  cases ha : es.lookup a with
  | none => rfl
  | some conns =>
      rw [ha] at h
      dsimp only at h ⊢
      rw [h]

theorem remove_some {a : AgentID} {c : ConnectID} {p : ProxyClientConnection}
    (h : es.getFrontend a c = some p) :
    es.remove a c = (some p, es.put a (((es.lookup a).getD ∅).erase c)) := by
  unfold getFrontend at h
  unfold remove
  cases ha : es.lookup a with
  | none =>
      rw [ha] at h
      cases h
  | some conns =>
      rw [ha] at h
      dsimp only at h ⊢
      rw [h]
      rfl

theorem takes_remove (es : Established) (a : AgentID) (c : ConnectID) :
    es.Takes (fun e => e.1 = a && e.2.1 = c) (es.remove a c).1.toList (es.remove a c).2 := by
  cases hget : es.getFrontend a c with
  | none =>
      rw [remove_none hget]
      refine .nothing ?_
      rintro ⟨a', c', p⟩ he
      rw [mem_connections] at he
      refine Bool.eq_false_iff.mpr fun h => ?_
      obtain ⟨ha, hc⟩ : a' = a ∧ c' = c := by simpa using h
      rw [ha, hc, hget] at he
      cases he
  | some p =>
      have hlook : ((es.lookup a).getD ∅).lookup c = some p := by rw [← getFrontend_eq, hget]
      have hperm := GoMap.entries_erase_perm hlook
      have hrest : ∀ e ∈ (((es.lookup a).getD ∅).erase c).entries, e.1 ≠ c := by
        intro e he hc
        have hl := GoMap.lookup_eq_some_iff.mpr he
        rw [hc, AList.lookup_erase] at hl
        cases hl
      rw [remove_some hget]
      refine takes_put (fun c' _ => c' = c) ?_ ?_
      · have hnone : (((es.lookup a).getD ∅).erase c).entries.filter
            (fun e => decide (e.1 = c)) = [] :=
          List.filter_eq_nil_iff.mpr fun e he => by simp [hrest e he]
        have htaken := (hperm.filter fun e => decide (e.1 = c)).map fun e => e.2
        rw [List.filter_cons_of_pos (by simp), hnone] at htaken
        exact htaken.symm
      · have hall : (((es.lookup a).getD ∅).erase c).entries.filter
            (fun e => !decide (e.1 = c)) = (((es.lookup a).getD ∅).erase c).entries :=
          List.filter_eq_self.mpr fun e he => by simp [hrest e he]
        have hkept := hperm.filter fun e => !decide (e.1 = c)
        rw [List.filter_cons_of_neg (by simp), hall] at hkept
        exact hkept.symm

theorem removeForBackendConn_absent {a : AgentID} (b : BackendId) (h : es.lookup a = none) :
    es.removeForBackendConn a b = (none, es) := by
  unfold removeForBackendConn
  rw [h]

/-- `removeEstablishedForBackendConn` takes the entries of that backend under that agent. -/
theorem takes_removeForBackendConn (es : Established) (a : AgentID) (b : BackendId) :
    es.Takes (fun e => e.1 = a && e.2.2.backend = some b)
      ((es.removeForBackendConn a b).1.getD []) (es.removeForBackendConn a b).2 := by
  cases ha : es.lookup a with
  | none =>
      rw [removeForBackendConn_absent b ha]
      refine .nothing ?_
      rintro ⟨a', c', p⟩ he
      rw [mem_connections, getFrontend_eq] at he
      refine Bool.eq_false_iff.mpr fun h => ?_
      have h' : a' = a := (by simpa using h : a' = a ∧ p.backend = some b).1
      rw [h', ha] at he
      cases he
  | some conns =>
      have hput : es.Takes (fun e => e.1 = a && e.2.2.backend = some b)
          (((es.lookup a).getD ∅).removeWhere fun p => p.backend = some b).1
          (es.put a (((es.lookup a).getD ∅).removeWhere fun p => p.backend = some b).2) :=
        takes_put (fun _ p => p.backend = some b) (.refl _) (.refl _)
      have hremove : es.removeForBackendConn a b =
          (some (conns.removeWhere fun p => p.backend = some b).1,
            es.put a (conns.removeWhere fun p => p.backend = some b).2) := by
        unfold removeForBackendConn
        rw [ha]
      rw [hremove]
      rw [ha] at hput
      exact hput

/-- The loop over the agents takes what it is to take from those it visits. -/
theorem takes_removeForStreamLoop (u : StreamUID) : ∀ {agents : List AgentID} {es : Established},
    es.Takes (fun e => e.1 ∈ agents && e.2.2.ofStream u) (removeForStreamLoop u agents es).1
      (removeForStreamLoop u agents es).2 := by
  intro agents
  induction agents with
  | nil => exact .nothing fun e _ => by simp
  | cons a agents ih =>
      intro es
      have hput : es.Takes (fun e => e.1 = a && e.2.2.ofStream u)
          (((es.lookup a).getD ∅).removeWhere fun p => p.ofStream u).1
          (es.put a (((es.lookup a).getD ∅).removeWhere fun p => p.ofStream u).2) :=
        takes_put (fun _ p => p.ofStream u) (.refl _) (.refl _)
      refine (hput.trans ih).congr fun e _ => ?_
      by_cases hx : e.1 = a <;> simp [hx]

/-- `removeEstablishedForStream` takes the entries of that stream from every agent. -/
theorem takes_removeForStream (es : Established) {u : StreamUID} (hu : u ≠ "") :
    es.Takes (fun e => e.2.2.ofStream u) (es.removeForStream u).1 (es.removeForStream u).2 := by
  unfold removeForStream
  rw [if_neg hu]
  refine (takes_removeForStreamLoop u).congr ?_
  rintro ⟨a, c, p⟩ he
  simp [mem_keys_of_get (mem_connections.mp he)]

end Established

/-! ## Both sides of the account -/

def Event.enters : Event → Option Entry
  | .entered _ a c p => some (a, c, p)
  | _ => none

def Event.removes : Event → Option (Tid × Entry)
  | .removed t a c p => some (t, a, c, p)
  | _ => none

/-- The connections that were entered. -/
def entered (log : List Event) : List Entry := log.filterMap Event.enters

/-- The connections that removals returned, each with the goroutine it was returned to. -/
def removals (log : List Event) : List (Tid × Entry) := log.filterMap Event.removes

/-- The operations on `established`. -/
def Op.accounts : Op → Bool
  | .addEstablished _ _ _ => true
  | .removeEstablished _ _ _ => true
  | .removeEstablishedForBackendConn _ => true
  | .removeEstablishedForStream _ => true
  | _ => false

/-- A connection is entered under a key that no live connection has. -/
def EntersFree (cfg : ServerConfig) (s : ServerState) (_ : Tid) (_ : Choice) : Op → Prop
  | .addEstablished b c _ => s.established.getFrontend (cfg.agentID b) c = none
  | _ => True

instance decidableEntersFree (cfg : ServerConfig) (s : ServerState) (t : Tid) (c : Choice)
    (op : Op) : Decidable (EntersFree cfg s t c op) := by
  unfold EntersFree
  split <;> infer_instance

/-- What one operation of goroutine `t` does to the account. -/
structure AccountStep (s s₁ : ServerState) (t : Tid) (ops : List Op) (added taken : List Entry) :
    Prop where
  entered : entered s₁.log = added ++ entered s.log
  removals : removals s₁.log = taken.map (fun e => (t, e)) ++ removals s.log
  balance : (s₁.established.connections ++ taken).Perm (added ++ s.established.connections)
  observes : Pool.load Op.observes ops = taken.length
  noneEmpty : s.established.NoneEmpty → s₁.established.NoneEmpty

section Step

variable {cfg : ServerConfig} {s s₁ : ServerState} {t : Tid} {c : Choice} {op : Op}
  {ops : List Op} {start : Option (Tid × List Op)}

/-- What was entered stays in the table or was taken out. -/
theorem AccountStep.keeps {added taken : List Entry} (h : AccountStep s s₁ t ops added taken)
    (hbal : (Konnectivity.entered s.log).Perm
      (s.established.connections ++ (Konnectivity.removals s.log).map fun x => x.2)) :
    (Konnectivity.entered s₁.log).Perm
      (s₁.established.connections ++ (Konnectivity.removals s₁.log).map fun x => x.2) := by
  have hid : taken.map ((fun x : Tid × Entry => x.2) ∘ fun e => (t, e)) = taken :=
    List.map_id taken
  rw [h.entered, h.removals, List.map_append, List.map_map, hid, ← List.append_assoc]
  calc added ++ Konnectivity.entered s.log
    _ |>.Perm (added ++ (s.established.connections ++
          (Konnectivity.removals s.log).map fun x => x.2)) := hbal.append_left _
    _ |>.Perm (s₁.established.connections ++ taken ++
          (Konnectivity.removals s.log).map fun x => x.2) := by
      rw [← List.append_assoc]
      exact (h.balance.append_right _).symm

theorem AfterRemove.next_observes (agentID : BackendId → AgentID) (r : DialID) (k : AfterRemove)
    (pd : Option ProxyClientConnection) :
    (k.next agentID r pd).all (fun o => o.observes = 0) = true := by
  cases k <;> cases pd <;> simp only [AfterRemove.next]
  case dialRsp.none => split <;> rfl
  case dialRsp.some => split <;> rfl
  case failDial.some => split <;> rfl
  all_goals rfl

/-- The other operations leave the table alone and have nobody count. -/
theorem exec_same (hq : op.accounts = false) (hex : exec cfg s t c op = some (s₁, ops, start)) :
    s₁.established = s.established ∧ ops.all (fun o => o.observes = 0) = true := by
  cases op with
  | addEstablished b cid p => cases hq
  | removeEstablished a cid k => cases hq
  | removeEstablishedForBackendConn b => cases hq
  | removeEstablishedForStream u => cases hq
  | pendingRemove r k =>
      simp only [exec] at hex
      cases hex
      exact ⟨rfl, AfterRemove.next_observes ..⟩
  | pendingRemoveForBackend b =>
      simp only [exec] at hex
      split at hex <;> cases hex
      exact ⟨rfl, by simp [Op.observes]⟩
  | pendingRemoveForStream u =>
      simp only [exec] at hex
      split at hex <;> cases hex
      exact ⟨rfl, by simp [sendBackendDialClose, Op.observes]⟩
  | sendFrontend f pkt k =>
      simp only [exec] at hex
      split at hex
      · cases hex
        exact ⟨rfl, rfl⟩
      · split at hex <;> cases hex
        next ok hsend =>
          refine ⟨(sendFrontend_cases hsend).2.1, ?_⟩
          cases k <;> cases ok <;> rfl
  | sendBackend b pkt k =>
      simp only [exec] at hex
      split at hex
      · cases hex
        exact ⟨rfl, rfl⟩
      · split at hex <;> cases hex
        refine ⟨rfl, ?_⟩
        cases k <;> cases c.ok <;> rfl
  | awaitDial r =>
      simp only [exec] at hex
      split at hex <;> cases hex
      refine ⟨rfl, ?_⟩
      cases c.case <;> rfl
  | closeMark r =>
      simp only [exec] at hex
      cases hex
      refine ⟨rfl, ?_⟩
      split <;> rfl
  | _ =>
      simp only [exec] at hex
      repeat' split at hex
      all_goals cases hex
      all_goals exact ⟨rfl, rfl⟩

theorem load_of_all {ops : List Op} (h : ops.all (fun o => o.observes = 0) = true) :
    Pool.load Op.observes ops = 0 :=
  Pool.load_eq_zero fun o ho => by simpa using List.all_eq_true.mp h o ho

theorem exec_quiet (hop : op.Origin cfg s.log t) (hq : op.accounts = false)
    (hex : exec cfg s t c op = some (s₁, ops, start)) : AccountStep s s₁ t ops [] [] := by
  obtain ⟨hsame, hobs⟩ := exec_same hq hex
  obtain ⟨es, hlog, hes⟩ := exec_adds hop hex
  have hquiet : ∀ e ∈ es, e.enters = none ∧ e.removes = none := by
    intro e he
    have hadds := hes e he
    clear hop hex hes he
    cases op <;> simp only [Op.Adds] at hadds
    all_goals first
      | exact Bool.noConfusion (show true = false from hq)
      | (obtain rfl := hadds; exact ⟨rfl, rfl⟩)
      | (obtain ⟨_, _, -, rfl⟩ := hadds; exact ⟨rfl, rfl⟩)
  refine ⟨?_, ?_, ?_, load_of_all hobs, fun h => hsame ▸ h⟩
  · unfold Konnectivity.entered
    rw [hlog, List.filterMap_append, List.filterMap_eq_nil_iff.mpr fun e he => (hquiet e he).1]
  · unfold Konnectivity.removals
    rw [hlog, List.filterMap_append, List.filterMap_eq_nil_iff.mpr fun e he => (hquiet e he).2]
    rfl
  · rw [hsame, List.append_nil]
    exact .refl _

/-- The entries a removal returned, read off the connections themselves. -/
theorem keyed_perm (hG : SharedOrigin cfg s) {test : Entry → Bool}
    {ret order : List ProxyClientConnection} {es' : Established}
    (h : s.established.Takes test ret es') (hperm : order.Perm ret) :
    (order.map fun p => (p.agentID, p.connectID, p)).Perm
      (s.established.connections.filter test) := by
  have hmap := (hperm.trans h.returned).map
    fun p : ProxyClientConnection => ((p.agentID, p.connectID, p) : Entry)
  rw [List.map_map] at hmap
  refine hmap.trans (.of_eq ?_)
  conv_rhs => rw [← List.map_id (s.established.connections.filter test)]
  refine List.map_congr_left ?_
  rintro ⟨a, cid, p⟩ he
  obtain ⟨ha, hc, -⟩ := hG.established a cid p
    (Established.mem_connections.mp (List.mem_filter.mp he).1)
  show (p.agentID, p.connectID, p) = (a, cid, p)
  rw [ha, hc]

/-- What was taken out and what is left. -/
theorem takes_balance {es es' : Established} {test : Entry → Bool}
    {ret : List ProxyClientConnection} (h : es.Takes test ret es') {taken : List Entry}
    (htaken : taken.Perm (es.connections.filter test)) :
    (es'.connections ++ taken).Perm es.connections :=
  (List.perm_append_comm.trans (htaken.append h.left)).trans (List.filter_append_perm _ _)

/-- A removal: what it recorded, what it had the goroutine count, what it left. -/
theorem accountStep_removal (hG : SharedOrigin cfg s) {test : Entry → Bool}
    {ret order : List ProxyClientConnection} {es' : Established}
    (h : s.established.Takes test ret es') (hperm : order.Perm ret) (hes : s₁.established = es')
    (hentered : entered s₁.log = entered s.log)
    (hremovals : removals s₁.log =
      (order.map fun p => (t, p.agentID, p.connectID, p)) ++ removals s.log)
    (hobs : Pool.load Op.observes ops = order.length) :
    AccountStep s s₁ t ops [] (order.map fun p => (p.agentID, p.connectID, p)) where
  entered := hentered
  removals := by rw [hremovals, List.map_map]; rfl
  balance := hes ▸ takes_balance h (keyed_perm hG h hperm)
  observes := by rw [hobs, List.length_map]
  noneEmpty := fun hne => hes ▸ h.noneEmpty hne

/-- The events of a bulk removal. -/
theorem account_removed (a : ProxyClientConnection → AgentID) {e : Event}
    (he : e.enters = none ∧ e.removes = none) (order : List ProxyClientConnection)
    (log : List Event) :
    entered (order.map (fun p => .removed t (a p) p.connectID p) ++ e :: log) = entered log ∧
      removals (order.map (fun p => .removed t (a p) p.connectID p) ++ e :: log) =
        order.map (fun p => (t, a p, p.connectID, p)) ++ removals log := by
  unfold entered removals
  induction order with
  | nil => exact ⟨List.filterMap_cons_none he.1, List.filterMap_cons_none he.2⟩
  | cons p order ih => exact ⟨ih.1, congrArg (List.cons _) ih.2⟩

theorem AfterEstablished.next_observes (cid : ConnectID) (k : AfterEstablished)
    (p : Option ProxyClientConnection) :
    Pool.load Op.observes (k.next cid p) = p.toList.length := by
  cases k <;> cases p <;> rfl

/-- Every operation keeps the account. -/
theorem exec_accounted (hG : SharedOrigin cfg s) (hop : op.Origin cfg s.log t)
    (hfree : EntersFree cfg s t c op) (hex : exec cfg s t c op = some (s₁, ops, start)) :
    ∃ added taken, AccountStep s s₁ t ops added taken := by
  cases op with
  | addEstablished b cid p =>
      have hnone : s.established.getFrontend (cfg.agentID b) cid = none := hfree
      simp only [exec, hnone] at hex
      cases hex
      refine ⟨[(cfg.agentID b, cid, p)], [], rfl, rfl, ?_, rfl, fun hne => ?_⟩
      · rw [List.append_nil]
        exact Established.add_connections hnone
      · show (s.established.add _ _ _).NoneEmpty
        rw [Established.add_eq_put]
        exact hne.put _ _
  | removeEstablished a cid k =>
      have htakes := Established.takes_remove s.established a cid
      simp only [exec] at hex
      split at hex
      · next hnone =>
          cases hex
          rw [hnone] at htakes
          exact ⟨[], _, accountStep_removal hG htakes (.refl _) rfl rfl rfl
            (AfterEstablished.next_observes cid k none)⟩
      · next p hp =>
          cases hex
          have hget := hp
          rw [Established.remove_fst] at hget
          obtain ⟨ha, hc, -⟩ := hG.established a cid p hget
          rw [hp] at htakes
          refine ⟨[], _, accountStep_removal hG htakes (.refl _) rfl rfl ?_
            (AfterEstablished.next_observes cid k (some p))⟩
          simp [removals, Event.removes, ha, hc]
  | removeEstablishedForBackendConn b =>
      have htakes := Established.takes_removeForBackendConn s.established (cfg.agentID b) b
      simp only [exec] at hex
      split at hex
      · next hnone =>
          cases hex
          rw [hnone] at htakes
          exact ⟨[], _, accountStep_removal hG htakes (.refl _) rfl rfl rfl rfl⟩
      · next ret hret =>
          split at hex <;> cases hex
          next hperm =>
            have hkey : ∀ p ∈ c.order, p.agentID = cfg.agentID b := by
              intro p hp
              obtain ⟨cid, hget, -⟩ :=
                (Established.mem_removeForBackendConn hret).mp (hperm.subset hp)
              exact (hG.established _ _ _ hget).1
            rw [hret] at htakes
            obtain ⟨hentered, hremovals⟩ := account_removed (t := t) (fun _ => cfg.agentID b)
              (e := .closedEstablished b) ⟨rfl, rfl⟩ c.order s.log
            refine ⟨[], _, accountStep_removal hG htakes hperm rfl hentered ?_ ?_⟩
            · have hmap : c.order.map (fun p => (t, cfg.agentID b, p.connectID, p)) =
                  c.order.map fun p => (t, p.agentID, p.connectID, p) :=
                List.map_congr_left fun p hp => by rw [hkey p hp]
              exact hremovals.trans (by rw [hmap])
            · have hrest : Pool.load Op.observes (c.order.map fun p => Op.sendFrontend p.frontend
                  (.ofCloseResponse ⟨"", p.connectID⟩) .done) = 0 :=
                Pool.load_eq_zero fun o ho => by
                  obtain ⟨p, -, rfl⟩ := List.mem_map.mp ho
                  rfl
              rw [Pool.load_append, hrest]
              split
              · rfl
              · next hz => exact (Nat.eq_zero_of_not_pos hz).symm
  | removeEstablishedForStream u =>
      have htakes := Established.takes_removeForStream s.established hop.2
      simp only [exec] at hex
      split at hex <;> cases hex
      next hperm =>
        obtain ⟨hentered, hremovals⟩ := account_removed (t := t) (fun p => p.agentID)
          (e := .scannedEstablished u) ⟨rfl, rfl⟩ c.order s.log
        refine ⟨[], _, accountStep_removal hG htakes hperm rfl hentered hremovals ?_⟩
        have hload : ∀ l : List ProxyClientConnection, Pool.load Op.observes (l.flatMap fun p =>
            [.observeClosed 1, sendBackendClose p.backend p.connectID]) = l.length := by
          intro l
          induction l with
          | nil => rfl
          | cons p l ih =>
              rw [List.flatMap_cons, Pool.load_append, ih, List.length_cons]
              show 1 + l.length = _
              omega
        exact hload c.order
  | _ => exact ⟨[], [], exec_quiet hop rfl hex⟩

/-- Only the four operations that change the table set the gauge, and they set
it unless they change nothing. -/
theorem exec_sameCount (hop : op.Origin cfg s.log t) (hset : op.setsCount cfg s.established = false)
    (hex : exec cfg s t c op = some (s₁, ops, start)) : s₁.established = s.established := by
  cases op with
  | addEstablished b cid p => cases hset
  | removeEstablished a cid k =>
      have hnone : s.established.getFrontend a cid = none := by simpa [Op.setsCount] using hset
      simp only [exec, Established.remove_none hnone] at hex
      cases hex
      rfl
  | removeEstablishedForBackendConn b =>
      have hnone : s.established.lookup (cfg.agentID b) = none := by
        simpa [Op.setsCount] using hset
      simp only [exec, Established.removeForBackendConn_absent b hnone] at hex
      cases hex
      rfl
  | removeEstablishedForStream u => exact absurd (of_decide_eq_false hset) (not_not.mpr hop.2)
  | _ => exact (exec_same rfl hex).1

theorem serveRecvBackend_observes {b : BackendId} {pkt : Packet}
    (h : serveRecvBackend cfg b pkt = some ops) : ops.all (fun o => o.observes = 0) = true := by
  unfold serveRecvBackend at h
  split at h
  all_goals try
    obtain ⟨x, -, rfl⟩ := Option.map_eq_some_iff.mp h
    first
      | rfl
      | (split <;> rfl)
  all_goals
    cases h
    rfl

theorem serveRecvFrontend_observes {f : Frontend} {st st' : StreamState} {pkt : Packet}
    (h : serveRecvFrontend f st pkt = some (st', ops)) :
    ops.all (fun o => o.observes = 0) = true := by
  unfold serveRecvFrontend at h
  split at h
  all_goals try
    obtain ⟨x, -, hx⟩ := Option.map_eq_some_iff.mp h
    clear h
    repeat' split at hx
    all_goals cases hx
    all_goals rfl
  cases h
  rfl

theorem arrive_observes {a : ServerAction} {t' : Tid} {ops' : List Op}
    (harr : arrive cfg s a = some (s₁, some (t', ops'))) :
    ops'.all (fun o => o.observes = 0) = true := by
  cases a <;> simp only [arrive] at harr <;> repeat' split at harr
  all_goals cases harr
  all_goals first
    | rfl
    | (next h => exact serveRecvBackend_observes h)
    | (next h => exact serveRecvFrontend_observes h)

/-- What arrives neither touches the table nor has anybody count. -/
theorem arrive_unaccounted {a : ServerAction} (harr : arrive cfg s a = some (s₁, start)) :
    s₁.established = s.established ∧ entered s₁.log = entered s.log ∧
      removals s₁.log = removals s.log ∧
      ∀ t' ops', start = some (t', ops') → Pool.load Op.observes ops' = 0 := by
  obtain ⟨-, hsame, hlog⟩ := arrive_adds harr
  refine ⟨hsame, ?_, ?_, fun t' ops' hstart => ?_⟩
  · rcases hlog with hlog | ⟨e, he, hlog⟩
    · rw [hlog]
    · rw [hlog]
      exact List.filterMap_cons_none (by cases e <;> first | rfl | cases he)
  · rcases hlog with hlog | ⟨e, he, hlog⟩
    · rw [hlog]
    · rw [hlog]
      exact List.filterMap_cons_none (by cases e <;> first | rfl | cases he)
  · refine load_of_all (arrive_observes (hstart ▸ harr))

end Step

/-! ## Streams have a name -/

/-- No connection belongs to a stream without a UID. -/
theorem server_named {cfg : ServerConfig} {okExec : ServerState → Tid → Choice → Op → Prop}
    {okArrive : ServerState → ServerAction → Prop} {s : System.State ServerState Tid Op}
    (h : Reach (server cfg).step (System.Allowed okExec okArrive) newServer s) :
    ∀ f b r, .dialing f b r ∈ s.shared.log → f.streamUID ≠ "" := by
  refine (System.invariant (fun s => ∀ f b r, .dialing f b r ∈ s.log → f.streamUID ≠ "")
    (fun _ t _ => t ≠ .proxy "") ?_ ?_ ?_ ?_ h).1
  · exact fun f b r hd => by cases hd
  · exact fun t o ho => by cases ho
  · intro s a s₁ start hr hnamed _ harr
    have hopened := (server_origin hr).1.stream
    have hproxy : ∀ {u : StreamUID} {x : Bool}, ((s.shared.streams u).opened && x) = true →
        Tid.proxy u ≠ .proxy "" := by
      intro u x hx heq
      injection heq with heq
      exact hopened u (Bool.and_eq_true _ _ ▸ hx).1 heq
    have hkept : ∀ {e : Event}, (∀ f b r, e ≠ .dialing f b r) →
        ∀ f b r, .dialing f b r ∈ e :: s.shared.log → f.streamUID ≠ "" := by
      intro e he f b r hd
      rcases List.mem_cons.mp hd with heq | hd
      · exact absurd heq.symm (he f b r)
      · exact hnamed f b r hd
    cases a with
    | dial u random b network address =>
        simp only [server, arrive] at harr
        split at harr <;> cases harr
        next hfresh =>
          refine ⟨fun f b' r hd => ?_, fun _ _ hx => hx, fun o _ hx => by cases hx⟩
          rcases List.mem_cons.mp hd with heq | hd
          · cases heq
            simp only [ServerState.freshStream, Bool.and_eq_true, decide_eq_true_eq] at hfresh
            exact hfresh.1.1
          · exact hnamed f b' r hd
    | receive u pkt =>
        simp only [server, arrive] at harr
        split at harr
        · next hopen =>
            split at harr
            · cases harr
            · split at harr <;> cases harr
              · exact ⟨hkept (fun _ _ _ h => by cases h), fun _ _ hx => hx, fun o _ => hproxy hopen⟩
              · exact ⟨hkept (fun _ _ _ h => by cases h), fun _ _ hx => hx, fun o _ => hproxy hopen⟩
        · cases harr
    | shutdown u =>
        simp only [server, arrive] at harr
        split at harr <;> cases harr
        next hopen =>
          exact ⟨hkept (fun _ _ _ h => by cases h), fun _ _ hx => hx, fun o _ => hproxy hopen⟩
    | _ =>
        simp only [server, arrive] at harr
        repeat' split at harr
        all_goals cases harr
        all_goals first
          | exact ⟨hnamed, fun _ _ hx => hx, trivial⟩
          | exact ⟨hnamed, fun _ _ hx => hx, fun o _ hx => by cases hx⟩
          | exact ⟨hkept (fun _ _ _ h => by cases h), fun _ _ hx => hx, fun o _ hx => by cases hx⟩
  · intro s t c o rest s₁ ops start hr hnamed ht hproxy _ hex
    have hop := (server_origin hr).2 t o (by rw [ht]; exact List.mem_cons_self)
    refine ⟨fun f b r hd => ?_, fun _ _ hx => hx, fun _ _ => hproxy, ?_⟩
    · rcases exec_event hop hex hd with hd | hadds
      · exact hnamed f b r hd
      · cases o with
        | selectBackend f' req pkt =>
            obtain ⟨b', heq⟩ := hadds
            cases heq
            intro hu
            refine hproxy ?_
            rw [hop.1, Frontend.tid, hop.2.1, ← hu]
        | addEstablished b' cid p =>
            rcases hadds with hadds | ⟨old, -, hadds⟩ <;> cases hadds
        | removeEstablishedForBackendConn b' =>
            rcases hadds with hadds | ⟨cid, p, -, -, hadds⟩ <;> cases hadds
        | removeEstablishedForStream u =>
            rcases hadds with hadds | ⟨a, cid, p, -, -, hadds⟩ <;> cases hadds
        | removeEstablished a cid k =>
            obtain ⟨p, -, hadds⟩ := hadds
            cases hadds
        | sendFrontend f' pkt k =>
            obtain ⟨f', ok, -, hadds⟩ := hadds
            cases hadds
        | sendBackend b' pkt k =>
            obtain ⟨b', ok, -, hadds⟩ := hadds
            cases hadds
        | _ => cases hadds
    · rcases exec_start hex with rfl | ⟨r, b, f, rfl⟩
      · trivial
      · exact fun o _ hx => by cases hx

/-! ## The account of every run -/

/-- The account is in order. -/
structure AccountInv (s : System.State (ServerState × ServerMetrics) Tid Op) : Prop where
  /-- What was entered is in the table or was taken out. -/
  balance : (entered s.shared.1.log).Perm
    (s.shared.1.established.connections ++ (removals s.shared.1.log).map fun x => x.2)
  /-- A goroutine has counted what it took out, or still has to. -/
  counted : ∀ t, ((removals s.shared.1.log).map fun x => x.1).count t =
    s.shared.2.closed.count t + Pool.load Op.observes (s.threads t)
  noneEmpty : s.shared.1.established.NoneEmpty
  gauge : s.shared.2.establishedConnCount = s.shared.1.established.getCount

section Runs

variable {cfg : ServerConfig} {s : System.State (ServerState × ServerMetrics) Tid Op}

theorem count_observed {t x : Tid} (op : Op) :
    (List.replicate op.observes t).count x = if x = t then op.observes else 0 := by
  rw [List.count_replicate]
  by_cases hx : x = t
  · simp [hx]
  · simp [hx, Ne.symm hx]

theorem AccountInv.exec {s₁ : ServerState × ServerMetrics} {t : Tid} {c : Choice} {op : Op}
    {rest ops : List Op} {start : Option (Tid × List Op)} (h : AccountInv s)
    (hG : SharedOrigin cfg s.shared.1) (hop : op.Origin cfg s.shared.1.log t)
    (ht : s.threads t = op :: rest) (hfree : EntersFree cfg s.shared.1 t c op)
    (hex : Konnectivity.exec cfg s.shared.1 t c op = some (s₁.1, ops, start))
    (hnote : s₁.2 = ServerMetrics.note cfg s.shared.1 t op s₁.1 s.shared.2) :
    AccountInv ⟨s₁, Pool.spawn (Function.update s.threads t (ops ++ rest)) start⟩ := by
  obtain ⟨added, taken, hacc⟩ := exec_accounted hG hop hfree hex
  have hstart : ∀ t' ops', start = some (t', ops') → Pool.load Op.observes ops' = 0 := by
    intro t' ops' hs
    rcases exec_start hex with rfl | ⟨r, b, f, rfl⟩
    · cases hs
    · cases hs
      rfl
  refine ⟨hacc.keeps h.balance, fun x => ?_, hacc.noneEmpty h.noneEmpty, ?_⟩
  · show ((removals s₁.1.log).map _).count x = s₁.2.closed.count x + _
    have hload := @Pool.load_push _ _ _ _ t op ops rest Op.observes start ht hstart x
    have hold := h.counted x
    have hnew : (taken.map ((fun y : Tid × Entry => y.1) ∘ fun e => (t, e))).count x =
        if x = t then taken.length else 0 := by
      have hrep : taken.map ((fun y : Tid × Entry => y.1) ∘ fun e => (t, e)) =
          List.replicate taken.length t := List.map_const ..
      rw [hrep, List.count_replicate]
      by_cases hx : x = t
      · simp [hx]
      · simp [hx, Ne.symm hx]
    rw [hacc.removals, List.map_append, List.map_map, List.count_append, hnew, hnote]
    show _ = (List.replicate op.observes t ++ s.shared.2.closed).count x + _
    rw [List.count_append, count_observed]
    rw [hacc.observes] at hload
    dsimp only
    omega
  · show s₁.2.establishedConnCount = s₁.1.established.getCount
    rw [hnote, ServerMetrics.note]
    cases hset : op.setsCount cfg s.shared.1.established with
    | true => rfl
    | false =>
        rw [exec_sameCount hop hset hex]
        exact h.gauge

theorem AccountInv.arrive {s₁ : ServerState × ServerMetrics} {a : ServerAction}
    {start : Option (Tid × List Op)} {threads : Tid → List Op} (h : AccountInv s)
    (harr : Konnectivity.arrive cfg s.shared.1 a = some (s₁.1, start))
    (hmetrics : s₁.2 = s.shared.2) (hthreads : Pool.Arrived s.threads start threads) :
    AccountInv ⟨s₁, threads⟩ := by
  obtain ⟨hsame, hentered, hremovals, hstart⟩ := arrive_unaccounted harr
  refine ⟨?_, fun x => ?_, ?_, ?_⟩
  · show (entered s₁.1.log).Perm (s₁.1.established.connections ++ (removals s₁.1.log).map _)
    rw [hentered, hremovals, hsame]
    exact h.balance
  · show ((removals s₁.1.log).map _).count x = s₁.2.closed.count x + _
    rw [hremovals, hmetrics, hthreads.load hstart]
    exact h.counted x
  · show s₁.1.established.NoneEmpty
    rw [hsame]
    exact h.noneEmpty
  · show s₁.2.establishedConnCount = s₁.1.established.getCount
    rw [hmetrics, hsame]
    exact h.gauge

/-- No two live connections share their agent and connection ID: whenever a
connection is entered, its key is free. -/
abbrev DistinctConnections (cfg : ServerConfig) :
    System.State (ServerState × ServerMetrics) Tid Op → System.Action Tid ServerAction Choice →
      Prop :=
  System.Allowed (fun s => EntersFree cfg s.1) fun _ _ => True

theorem metered_reach
    (h : Reach (meteredServer cfg).step (DistinctConnections cfg) newMeteredServer s) :
    Reach (server cfg).step (System.Allowed (EntersFree cfg) fun _ _ => True) newServer
      s.unmeasured :=
  @System.measured_reach _ _ _ _ _ _ (server cfg) (EntersFree cfg) (fun _ _ => True) _
    (ServerMetrics.note cfg) _ _ h

theorem metered_account
    (h : Reach (meteredServer cfg).step (DistinctConnections cfg) newMeteredServer s) :
    AccountInv s := by
  refine System.invariant_state AccountInv ?_ ?_ ?_ h
  · exact ⟨.nil, fun t => rfl, (fun a conns hl => nomatch hl), rfl⟩
  · intro s t c op rest s₁ ops start hr hinv _ ht hok hex
    obtain ⟨hG, hP⟩ := server_origin (metered_reach hr)
    obtain ⟨hex, hnote⟩ := System.measured_exec hex
    have hop := hP t op (by rw [System.State.unmeasured, ht]; exact List.mem_cons_self)
    exact hinv.exec hG hop ht hok hex hnote
  · intro s a s₁ start threads _ hinv _ _ harr hthreads
    obtain ⟨harr, hmetrics⟩ := System.measured_arrive harr
    exact hinv.arrive harr hmetrics hthreads

/-- No entry belongs to the stream without a UID, for which nothing is removed. -/
theorem takes_own (h : Reach (meteredServer cfg).step (DistinctConnections cfg) newMeteredServer s)
    (u : StreamUID) :
    s.shared.1.established.Takes (fun e => e.2.2.ofStream u)
      (s.shared.1.established.removeForStream u).1
      (s.shared.1.established.removeForStream u).2 := by
  by_cases hu : u = ""
  · subst hu
    have hreach := metered_reach h
    rw [Established.removeForStream, if_pos rfl]
    refine .nothing ?_
    rintro ⟨a, c, p⟩ he
    obtain ⟨-, -, ⟨f, b, hf, -, hd⟩, -⟩ :=
      (server_origin hreach).1.established a c p (Established.mem_connections.mp he)
    have hnamed := server_named hreach f b _ hd
    simp [ProxyClientConnection.ofStream, hf, hnamed]
  · exact Established.takes_removeForStream _ hu

/-- Nobody is between a removal and its observation. -/
def AllCounted (s : System.State (ServerState × ServerMetrics) Tid Op) : Prop :=
  ∀ t, ∀ op ∈ s.threads t, ∀ n, op ≠ .observeClosed n

/-- Established-connection accounting is exact. -/
theorem established_accounts_exact
    (h : Reach (meteredServer cfg).step (DistinctConnections cfg) newMeteredServer s) :
    let es := s.shared.1.established
    -- every connection entered is in the table or was returned by one removal
    (entered s.shared.1.log).Perm (es.connections ++ (removals s.shared.1.log).map fun x => x.2) ∧
      -- and each goroutine counts what was returned to it, once
      (∀ t, ((removals s.shared.1.log).map fun x => x.1).count t =
        s.shared.2.closed.count t + Pool.load Op.observes (s.threads t)) ∧
      (AllCounted s → (entered s.shared.1.log).length =
        es.connections.length + s.shared.2.closed.length) ∧
      (∀ a conns, es.lookup a = some conns → conns.size ≠ 0) ∧
      s.shared.2.establishedConnCount = es.connections.length ∧
      (∀ a b, es.Takes (fun e => e.1 = a && e.2.2.backend = some b)
        ((es.removeForBackendConn a b).1.getD []) (es.removeForBackendConn a b).2) ∧
      ∀ u, es.Takes (fun e => e.2.2.ofStream u) (es.removeForStream u).1
        (es.removeForStream u).2 := by
  have hinv := metered_account h
  refine ⟨hinv.balance, hinv.counted, fun hall => ?_, hinv.noneEmpty, ?_,
    Established.takes_removeForBackendConn _, takes_own h⟩
  · -- the goroutines of the removals are, with repetitions, those of the counts
    have hperm : ((removals s.shared.1.log).map fun x => x.1).Perm s.shared.2.closed := by
      refine List.perm_iff_count.mpr fun t => ?_
      have hload : Pool.load Op.observes (s.threads t) = 0 := by
        refine Pool.load_eq_zero fun op hop => ?_
        cases op with
        | observeClosed n => exact absurd rfl (hall t _ hop n)
        | _ => rfl
      rw [hinv.counted t, hload, Nat.add_zero]
    have hclosed := hperm.length_eq
    rw [List.length_map] at hclosed
    rw [hinv.balance.length_eq, List.length_append, List.length_map, hclosed]
  · rw [hinv.gauge, Established.getCount_eq]

/-- The frontend goes away and the agent closes the connection at the same
time: the cleanup takes the entry, the dispatcher finds nothing to count. -/
theorem established_accounts_exact_race :
    let cfg : ServerConfig := ⟨fun _ => { id := "a" }, false⟩
    ∃ s, Reach (meteredServer cfg).step (DistinctConnections cfg) newMeteredServer s ∧
      (entered s.shared.1.log).length = 1 ∧ s.shared.2.closed = [.proxy "x"] ∧
      s.shared.2.establishedConnCount = s.shared.1.established.connections.length := by
  intro cfg
  let entry : ProxyClientConnection :=
    { frontend := some (proxyFrontend "x"), dialID := 10, connectID := 1, agentID := "a"
      backend := some 0, dialAddress := "h" }
  let acts : List (System.Action Tid ServerAction Choice) :=
    [.arrive (.connect 0), .arrive (.openStream "x" none),
      .arrive (.receive "x" (.ofDialRequest ⟨"tcp", "h", 10⟩)),
      .run (.proxy "x") { backend := some 0 }, .run (.proxy "x") {}, .run (.proxy "x") {},
      .run (.proxy "x") {}, .arrive (.deliver 0 (.ofDialResponse ⟨"", 1, 10⟩)),
      .run (.dispatcher 0) {}, .run (.dispatcher 0) {}, .run (.dispatcher 0) {},
      .run (.dispatcher 0) {}, .arrive (.shutdown "x"), .run (.proxy "x") {},
      .arrive (.deliver 0 (.ofCloseResponse ⟨"", 1⟩)), .run (.proxy "x") { order := [entry] },
      .run (.dispatcher 0) {}, .run (.proxy "x") {}]
  obtain ⟨s, hs, hend⟩ : ∃ s, run (meteredServer cfg).step newMeteredServer acts = some s ∧
      decide ((entered s.shared.1.log).length = 1 ∧ s.shared.2.closed = [.proxy "x"]) = true :=
    run_any (by decide)
  have hreach : Reach (meteredServer cfg).step (DistinctConnections cfg) newMeteredServer s :=
    reach_of_run hs (by decide)
  obtain ⟨hentered, hclosed⟩ := of_decide_eq_true hend
  exact ⟨s, hreach, hentered, hclosed, (established_accounts_exact hreach).2.2.2.2.1⟩

end Runs

end Konnectivity
