import Konnectivity.Server.Connect

/-!
# Who is admitted as an agent

With authentication enabled `connect` gives a backend to the managers only
after `authenticateAgentViaToken` returned no error, and that happens for one
user name only. The name is cut at its colons and the four parts are compared
one by one; cutting is the inverse of joining as long as no part holds a
colon, so the four comparisons are one comparison with the joined text.

Metadata comes from the wire with its keys in lower case, so the copy with
lowered keys that `FromIncomingContext` makes reads like the original.
-/

namespace Konnectivity

open Lib

/-! ## Metadata -/

theorem toLower_wire {k : String} (h : isWireName k = true) : toLower k = k := by
  have hsame : k.toList.map Char.toLower = k.toList := by
    refine (List.map_congr_left fun c hc => ?_).trans (List.map_id _)
    have hc := List.all_eq_true.mp h c hc
    rw [Bool.and_eq_true, Bool.not_eq_true'] at hc
    exact dif_neg (of_decide_eq_false hc.2)
  rw [toLower, hsame, String.ofList_toList]

/-- Inserting entries with distinct keys on top of a map. -/
theorem lookup_insertAll (l : List (Sigma fun _ : String => List String)) (hl : l.NodupKeys)
    (out : MD) (k : String) :
    (l.foldl (fun out e => out.insert e.1 e.2) out).lookup k =
      (l.dlookup k).or (out.lookup k) := by
  induction l generalizing out with
  | nil => simp
  | cons e l ih =>
      obtain ⟨hnot, hl⟩ := List.nodupKeys_cons.mp hl
      rw [List.foldl_cons, ih hl, GoMap.lookup_insert_if]
      by_cases hk : k = e.1
      · subst hk
        rw [if_pos rfl, List.dlookup_cons_eq, List.dlookup_eq_none.mpr hnot]
        rfl
      · rw [if_neg hk, List.dlookup_cons_ne _ _ hk]

theorem foldl_toLower {l : List (Sigma fun _ : String => List String)}
    (h : ∀ e ∈ l, isWireName e.1 = true) (out : MD) :
    l.foldl (fun out e => out.insert (toLower e.1) e.2) out =
      l.foldl (fun out e => out.insert e.1 e.2) out := by
  induction l generalizing out with
  | nil => rfl
  | cons e l ih =>
      rw [List.foldl_cons, List.foldl_cons, toLower_wire (h e List.mem_cons_self)]
      exact ih (fun e he => h e (List.mem_cons_of_mem _ he)) _

/-- The copy has the values of the original. -/
theorem get_fromIncomingContext (i : Incoming) :
    ∃ md, fromIncomingContext (some i) = some md ∧ ∀ k, md.get k = i.md.get k := by
  have hwire : ∀ e ∈ i.md.entries, isWireName e.1 = true :=
    fun e he => i.wire e.1 (List.mem_keys_of_mem he)
  refine ⟨_, congrArg some (foldl_toLower hwire ∅), fun k => ?_⟩
  rw [MD.get, lookup_insertAll _ i.md.nodupKeys, AList.lookup_empty, Option.or_none]
  rfl

/-! ## The user name -/

/-- The user name of a service account. -/
def serviceAccountName (ns sa : String) : String :=
  "system:serviceaccount:" ++ ns ++ ":" ++ sa

theorem toList_serviceAccountName (ns sa : String) :
    (serviceAccountName ns sa).toList =
      [':'].intercalate ["system".toList, "serviceaccount".toList, ns.toList, sa.toList] := by
  have hscheme : "system:serviceaccount:" = "system" ++ ":" ++ "serviceaccount" ++ ":" := by decide
  have hcolon : ":".toList = [':'] := by decide
  show ("system:serviceaccount:" ++ ns ++ ":" ++ sa).toList = _
  rw [hscheme, List.intercalate_cons_cons, List.intercalate_cons_cons,
    List.intercalate_cons_cons, List.intercalate_singleton, ← hcolon]
  simp only [String.toList_append, List.append_assoc]

/-- Four parts, joined again, are the text. -/
theorem splitColon_four {s a b c d : String} (h : splitColon s = [a, b, c, d]) :
    s.toList = [':'].intercalate [a.toList, b.toList, c.toList, d.toList] := by
  have hparts : s.toList.splitOn ':' = [a.toList, b.toList, c.toList, d.toList] := by
    have hmap := congrArg (List.map String.toList) h
    rw [splitColon, List.map_map] at hmap
    rw [← List.map_id (s.toList.splitOn ':')]
    exact (List.map_congr_left fun l _ => by simp).trans hmap
  rw [← hparts, List.intercalate_splitOn]

theorem splitColon_serviceAccountName {ns sa : String} (hns : ':' ∉ ns.toList)
    (hsa : ':' ∉ sa.toList) :
    splitColon (serviceAccountName ns sa) = ["system", "serviceaccount", ns, sa] := by
  rw [splitColon, toList_serviceAccountName, List.splitOn_intercalate]
  · simp
  · intro l hl
    simp only [List.mem_cons, List.not_mem_nil, or_false] at hl
    obtain rfl | rfl | rfl | rfl := hl
    · decide
    · decide
    · exact hns
    · exact hsa
  · exact List.cons_ne_nil _ _

variable {o : AgentTokenAuthenticationOptions}

theorem checkUsername_ok_iff (hns : ':' ∉ o.agentNamespace.toList)
    (hsa : ':' ∉ o.agentServiceAccount.toList) {username name : String} :
    o.checkUsername username = .ok name ↔
      username = serviceAccountName o.agentNamespace o.agentServiceAccount ∧ name = username := by
  constructor
  · intro h
    unfold AgentTokenAuthenticationOptions.checkUsername at h
    split at h
    · next system serviceaccount ns sa hsplit =>
        split at h
        · cases h
        · next hsystem =>
            split at h
            · cases h
            · next hnamespace =>
                split at h
                · cases h
                · next haccount =>
                    injection h with hname
                    rw [not_or, not_not, not_not] at hsystem
                    rw [not_not] at hnamespace haccount
                    refine ⟨String.toList_injective ?_, hname.symm⟩
                    rw [splitColon_four hsplit, toList_serviceAccountName, hsystem.1, hsystem.2,
                      hnamespace, haccount]
    · cases h
  · rintro ⟨rfl, rfl⟩
    simp [AgentTokenAuthenticationOptions.checkUsername, splitColon_serviceAccountName hns hsa]

/-! ## The token -/

theorem validateAuthToken_ok_iff (hns : ':' ∉ o.agentNamespace.toList)
    (hsa : ':' ∉ o.agentServiceAccount.toList) {token name : String} :
    o.validateAuthToken token = .ok name ↔
      ∃ status, o.createTokenReview ⟨token, [o.authenticationAudience]⟩ = .ok status ∧
        status.error = "" ∧ status.authenticated = true ∧
        status.username = serviceAccountName o.agentNamespace o.agentServiceAccount ∧
        name = status.username := by
  unfold AgentTokenAuthenticationOptions.validateAuthToken
  cases hreview : o.createTokenReview ⟨token, [o.authenticationAudience]⟩ with
  | error err => simp
  | ok status =>
      by_cases herror : status.error = ""
      · by_cases hauth : status.authenticated = true
        · simp [herror, hauth, checkUsername_ok_iff hns hsa]
        · simp [herror, hauth]
      · simp [herror]

theorem trimPrefix?_eq_some {pre s t : String} : trimPrefix? pre s = some t ↔ s = pre ++ t := by
  unfold trimPrefix?
  constructor
  · intro h
    split at h
    · next hpre =>
        injection h with h
        obtain ⟨rest, hrest⟩ := List.isPrefixOf_iff_prefix.mp hpre
        refine String.toList_injective ?_
        rw [← h, String.toList_append, ← hrest, String.toList_ofList, ← String.length_toList,
          List.drop_left]
    · cases h
  · rintro rfl
    have hpre : pre.toList.isPrefixOf (pre ++ t).toList = true := by
      rw [String.toList_append]
      exact List.isPrefixOf_iff_prefix.mpr (List.prefix_append _ _)
    rw [if_pos hpre, String.toList_append, ← String.length_toList, List.drop_left,
      String.ofList_toList]

theorem authenticateAgentViaToken_ok_iff {i : Incoming} :
    o.authenticateAgentViaToken (some i) = .ok () ↔
      ∃ token name, i.md.get Header.authenticationTokenContextKey =
          [Header.authenticationTokenContextSchemePrefix ++ token] ∧
        o.validateAuthToken token = .ok name := by
  obtain ⟨md, hmd, hget⟩ := get_fromIncomingContext i
  unfold AgentTokenAuthenticationOptions.authenticateAgentViaToken
  simp only [hmd, hget]
  constructor
  · intro h
    split at h
    · cases h
    · next v hv =>
        split at h
        · cases h
        · next token htoken =>
            split at h
            · cases h
            · next name hname =>
                exact ⟨token, name, by rw [hv, trimPrefix?_eq_some.mp htoken], hname⟩
    · cases h
  · rintro ⟨token, name, hv, hname⟩
    simp only [hv, trimPrefix?_eq_some.mpr rfl, hname]

/-! ## The stream -/

theorem connect_authenticated {s : ConnectConfig} {stream : AgentStream} {b : BackendInfo}
    (henabled : s.agentAuthenticationOptions.enabled = true)
    (h : .addBackend b ∈ (s.connect stream).1) :
    s.agentAuthenticationOptions.authenticateAgentViaToken stream.incoming = .ok () := by
  unfold ConnectConfig.connect at h
  split at h
  · cases h
  · simp only [henabled, if_true] at h
    split at h
    · cases h
    · next hauth => exact hauth

/-- With authentication enabled a backend is added only for a stream whose
token was accepted, and a token is accepted exactly when it is the only one,
has the scheme, and its review names the configured service account. -/
theorem agent_admitted_iff {s : ConnectConfig}
    (hns : ':' ∉ s.agentAuthenticationOptions.agentNamespace.toList)
    (hsa : ':' ∉ s.agentAuthenticationOptions.agentServiceAccount.toList) (stream : AgentStream) :
    (s.agentAuthenticationOptions.enabled = true → ∀ b, .addBackend b ∈ (s.connect stream).1 →
      s.agentAuthenticationOptions.authenticateAgentViaToken stream.incoming = .ok ()) ∧
    (s.agentAuthenticationOptions.authenticateAgentViaToken stream.incoming = .ok () ↔
      ∃ i token status, stream.incoming = some i ∧
        i.md.get "Authorization" = ["Bearer " ++ token] ∧
        s.agentAuthenticationOptions.createTokenReview
          ⟨token, [s.agentAuthenticationOptions.authenticationAudience]⟩ = .ok status ∧
        status.error = "" ∧ status.authenticated = true ∧
        status.username = "system:serviceaccount:" ++ s.agentAuthenticationOptions.agentNamespace
          ++ ":" ++ s.agentAuthenticationOptions.agentServiceAccount) := by
  refine ⟨fun henabled b h => connect_authenticated henabled h, ?_⟩
  cases stream.incoming with
  | none =>
      constructor
      · intro h
        cases h
      · rintro ⟨i, token, status, hi, -⟩
        cases hi
  | some i =>
      rw [authenticateAgentViaToken_ok_iff]
      constructor
      · rintro ⟨token, name, hget, hvalid⟩
        obtain ⟨status, hreview, herror, hauth, hname, -⟩ :=
          (validateAuthToken_ok_iff hns hsa).mp hvalid
        exact ⟨i, token, status, rfl, hget, hreview, herror, hauth, hname⟩
      · rintro ⟨j, token, status, hj, hget, hreview, herror, hauth, hname⟩
        injection hj with hj
        subst hj
        exact ⟨token, status.username, hget,
          (validateAuthToken_ok_iff hns hsa).mpr ⟨status, hreview, herror, hauth, hname, rfl⟩⟩

/-- A server that knows one token, and the agent that sends it. -/
def kubeSystem : ConnectConfig where
  serverID := "server"
  serverCount := 1
  agentAuthenticationOptions :=
    { enabled := true
      agentNamespace := "kube-system"
      agentServiceAccount := "agent"
      authenticationAudience := "system:konnectivity-server"
      createTokenReview := fun spec =>
        if spec.token = "token1" then .ok ⟨true, "system:serviceaccount:kube-system:agent", ""⟩
        else .ok ⟨false, "", "invalid bearer token"⟩ }
  genAgentIdentifiers := fun _ => .ok {}

def kubeSystemAgent : AgentStream where
  incoming := some ⟨.pairs [("agentID", "a"), ("Authorization", "Bearer token1")], by decide⟩
  sendHeader := fun _ => none

theorem agent_admitted_kubeSystem :
    kubeSystem.agentAuthenticationOptions.authenticateAgentViaToken kubeSystemAgent.incoming
      = .ok () ∧
    (kubeSystem.connect kubeSystemAgent).2 = none := by
  have hok := (agent_admitted_iff (s := kubeSystem) (by decide) (by decide)
    kubeSystemAgent).2.mpr
    ⟨_, "token1", ⟨true, "system:serviceaccount:kube-system:agent", ""⟩, rfl, by decide, rfl, rfl,
      rfl, by decide⟩
  exact ⟨hok, by decide⟩

end Konnectivity
