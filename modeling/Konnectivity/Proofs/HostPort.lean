import Konnectivity.Proofs.Selection

/-!
# The spellings of one destination

A request names its destination as a bare host, as a bracketed IPv6 literal or
with a port. Destination-host routing wants the host out of all of them.
`RemovePortFromHost` takes an opening bracket for the sign of a port, which is
right for what `net.JoinHostPort` makes and wrong for a bracketed literal
without a port.
-/

namespace Konnectivity

/-- `net.JoinHostPort`. -/
def joinHostPort (host port : String) : String :=
  String.ofList <|
    if ':' ∈ host.toList then '[' :: host.toList ++ ']' :: ':' :: port.toList
    else host.toList ++ ':' :: port.toList

/-- How a request may spell a destination. -/
inductive Spelling where
  | bare
  | bracketed
  | withPort
  deriving DecidableEq, Repr

def Spelling.address (host port : String) : Spelling → String
  | .bare => host
  | .bracketed => String.ofList ('[' :: host.toList ++ [']'])
  | .withPort => joinHostPort host port

/-- A name or an IPv4 address, or an IPv6 literal. -/
structure IsHost (host : String) : Prop where
  unbracketed : '[' ∉ host.toList ∧ ']' ∉ host.toList
  colons : host.toList.count ':' ≠ 1

section Chars

variable {host port : List Char}

theorem length_splitOn (c : Char) (l : List Char) : (l.splitOn c).length = l.count c + 1 := by
  induction l with
  | nil => rfl
  | cons x l ih =>
      rw [List.splitOn_cons_eq_if_modifyHead, List.count_cons]
      split
      · rw [List.length_cons, ih]
      · rw [List.length_modifyHead, ih, Nat.add_zero]

theorem containIPv6Addr_iff : containIPv6Addr host = true ↔ 2 ≤ host.count ':' := by
  rw [containIPv6Addr, length_splitOn, decide_eq_true_iff]
  omega

/-- The cutset of `trimBrackets`. -/
def isBracket (c : Char) : Bool := c = '[' || c = ']'

theorem trimBrackets_eq (host : List Char) :
    trimBrackets host = ((host.dropWhile isBracket).reverse.dropWhile isBracket).reverse :=
  rfl

theorem dropWhile_unbracketed (h : ∀ c ∈ host, isBracket c = false) (l : List Char)
    (hne : host = [] → l = []) : (host ++ l).dropWhile isBracket = host ++ l := by
  cases host with
  | nil =>
      rw [hne rfl]
      rfl
  | cons c host =>
      refine List.dropWhile_cons_of_neg ?_
      rw [h c List.mem_cons_self]
      exact Bool.false_ne_true

theorem isBracket_of_unbracketed (h : '[' ∉ host ∧ ']' ∉ host) :
    ∀ c ∈ host, isBracket c = false := by
  intro c hc
  rw [isBracket, Bool.or_eq_false_iff, decide_eq_false_iff_not, decide_eq_false_iff_not]
  constructor
  · rintro rfl
    exact h.1 hc
  · rintro rfl
    exact h.2 hc

theorem trimBrackets_of_unbracketed (h : '[' ∉ host ∧ ']' ∉ host) : trimBrackets host = host := by
  have hbare := isBracket_of_unbracketed h
  have h1 := dropWhile_unbracketed hbare [] fun _ => rfl
  have h2 : host.reverse.dropWhile isBracket = host.reverse := by
    have := dropWhile_unbracketed (fun c hc => hbare c (List.mem_reverse.mp hc)) [] fun _ => rfl
    rwa [List.append_nil] at this
  rw [List.append_nil] at h1
  rw [trimBrackets_eq, h1, h2, List.reverse_reverse]

theorem trimBrackets_bracketed (h : '[' ∉ host ∧ ']' ∉ host) (hne : host ≠ []) :
    trimBrackets ('[' :: host ++ [']']) = host := by
  have hbare := isBracket_of_unbracketed h
  have h1 : ('[' :: host ++ [']']).dropWhile isBracket = host ++ [']'] := by
    rw [List.cons_append, List.dropWhile_cons_of_pos rfl]
    exact dropWhile_unbracketed hbare _ fun hnil => absurd hnil hne
  have h2 : (host ++ [']']).reverse.dropWhile isBracket = host.reverse := by
    have := dropWhile_unbracketed (fun c hc => hbare c (List.mem_reverse.mp hc)) [] fun _ => rfl
    rw [List.append_nil] at this
    rw [List.reverse_append, List.reverse_singleton, List.singleton_append,
      List.dropWhile_cons_of_pos rfl, this]
  rw [trimBrackets_eq, h1, h2, List.reverse_reverse]

/-- The last colon is the one before the port. -/
theorem sliceToLast_port (h : ':' ∉ port) :
    sliceToLast ':' (host ++ ':' :: port) = some host := by
  have hmem : ':' ∈ host ++ ':' :: port := List.mem_append_right _ List.mem_cons_self
  have hport : ∀ c ∈ port.reverse, (decide (c ≠ ':')) = true := by
    intro c hc
    rw [decide_eq_true_iff]
    rintro rfl
    exact h (List.mem_reverse.mp hc)
  have hrev : (host ++ ':' :: port).reverse = port.reverse ++ ':' :: host.reverse := by simp
  rw [sliceToLast, if_pos hmem, hrev, List.dropWhile_append_of_pos hport,
    List.dropWhile_cons_of_neg (by simp), List.tail_cons, List.reverse_reverse]

theorem count_eq_zero (h : host.count ':' ≠ 1) (h' : ¬ 2 ≤ host.count ':') : ':' ∉ host := by
  rw [← List.count_eq_zero]
  omega

theorem removePort_bare (hb : '[' ∉ host ∧ ']' ∉ host) (hc : host.count ':' ≠ 1) :
    removePortFromChars host = some host := by
  unfold removePortFromChars
  by_cases hv6 : 2 ≤ host.count ':'
  · rw [containIPv6Addr_iff.mpr hv6, containPortIPv6, List.contains_eq_mem,
      decide_eq_false hb.1, trimBrackets_of_unbracketed hb]
    rfl
  · have hv4 : containIPv6Addr host = false :=
      Bool.eq_false_iff.mpr fun h => hv6 (containIPv6Addr_iff.mp h)
    rw [hv4, List.splitOn_eq_singleton (count_eq_zero hc hv6)]
    rfl

theorem removePort_named (hc : ':' ∉ host) (hp : ':' ∉ port) :
    removePortFromChars (host ++ ':' :: port) = some host := by
  have hv4 : containIPv6Addr (host ++ ':' :: port) = false := by
    refine Bool.eq_false_iff.mpr fun h => ?_
    have hcount := containIPv6Addr_iff.mp h
    rw [List.count_append, List.count_cons_self, List.count_eq_zero.mpr hc,
      List.count_eq_zero.mpr hp] at hcount
    omega
  unfold removePortFromChars
  rw [hv4, List.splitOn_append_cons_self_of_not_mem hc]
  rfl

theorem removePort_literal (hb : '[' ∉ host ∧ ']' ∉ host) (hv6 : 2 ≤ host.count ':')
    (hp : ':' ∉ port) :
    removePortFromChars ('[' :: host ++ ']' :: ':' :: port) = some host := by
  have hne : host ≠ [] := by
    rintro rfl
    simp at hv6
  have heq : '[' :: host ++ ']' :: ':' :: port = ('[' :: host ++ [']']) ++ ':' :: port := by simp
  have hcount : 2 ≤ ('[' :: host ++ ']' :: ':' :: port).count ':' := by
    simp
    omega
  unfold removePortFromChars
  rw [containIPv6Addr_iff.mpr hcount, heq, sliceToLast_port hp, Option.map_some,
    trimBrackets_bracketed hb hne]
  simp [containPortIPv6]

theorem exists_last_colon (h : ':' ∈ host) : ∃ a b, host = a ++ ':' :: b ∧ ':' ∉ b := by
  obtain ⟨b, a, heq, hnot⟩ := List.eq_append_cons_of_mem (List.mem_reverse.mpr h)
  refine ⟨a.reverse, b.reverse, ?_, fun hin => hnot (List.mem_reverse.mp hin)⟩
  rw [← List.reverse_reverse host, heq]
  simp

/-- A literal in brackets loses what comes after its last colon. -/
theorem removePort_bracketed (hv6 : 2 ≤ host.count ':') :
    removePortFromChars ('[' :: host ++ [']']) ≠ some host := by
  have hpos : 0 < host.count ':' := by omega
  obtain ⟨a, b, rfl, hb⟩ := exists_last_colon (List.count_pos_iff.mp hpos)
  have heq : '[' :: (a ++ ':' :: b) ++ [']'] = ('[' :: a) ++ ':' :: (b ++ [']']) := by simp
  have hcount : 2 ≤ ('[' :: (a ++ ':' :: b) ++ [']']).count ':' := by
    simp at hv6 ⊢
    omega
  have hport : ':' ∉ b ++ [']'] := by simpa using hb
  have hcut : removePortFromChars ('[' :: (a ++ ':' :: b) ++ [']']) =
      some (trimBrackets ('[' :: a)) := by
    unfold removePortFromChars
    rw [containIPv6Addr_iff.mpr hcount, heq, sliceToLast_port hport, Option.map_some]
    simp [containPortIPv6]
  rw [hcut]
  intro hsame
  have hlen : (trimBrackets ('[' :: a)).length ≤ a.length := by
    rw [trimBrackets_eq, List.dropWhile_cons_of_pos rfl, List.length_reverse]
    have h1 := (List.dropWhile_sublist isBracket (l := a)).length_le
    have h2 := (List.dropWhile_sublist isBracket (l := (a.dropWhile isBracket).reverse)).length_le
    rw [List.length_reverse] at h2
    exact Nat.le_trans h2 h1
  rw [Option.some.inj hsame, List.length_append, List.length_cons] at hlen
  omega

end Chars

/-- The host of every spelling but one is recovered, whatever the host and the
port; and no address makes the function slice out of range. -/
theorem removePort_recovers_host (address host port : String) (spelling : Spelling) :
    (∃ host, removePortFromHost address = some host) ∧
    (IsHost host → ':' ∉ port.toList →
      (spelling = .bracketed → 2 ≤ host.toList.count ':') →
      ((removePortFromHost (spelling.address host port) = some host ∧
        ∀ strategies, ProxyStrategy.destHost ∈ strategies →
          genContext (spelling.address host port) strategies = .ok (some host)) ↔
        spelling ≠ .bracketed)) := by
  refine ⟨removePortFromHost_isSome address, fun hhost hport hv6 => ?_⟩
  have hsame : ∀ address : String, removePortFromChars address.toList = some host.toList →
      removePortFromHost address = some host ∧
        ∀ strategies, ProxyStrategy.destHost ∈ strategies →
          genContext address strategies = .ok (some host) := by
    intro address h
    have hrem : removePortFromHost address = some host := by
      rw [removePortFromHost, h, Option.map_some, String.ofList_toList]
    refine ⟨hrem, fun strategies hin => ?_⟩
    rw [genContext_spec hrem, if_pos hin]
  cases spelling with
  | bare =>
      refine ⟨fun _ => by simp, fun _ => hsame host ?_⟩
      exact removePort_bare hhost.unbracketed hhost.colons
  | bracketed =>
      refine ⟨fun h => ?_, fun h => absurd rfl h⟩
      refine absurd ?_ (removePort_bracketed (hv6 rfl))
      have hrem := h.1
      rw [removePortFromHost, Spelling.address, String.toList_ofList] at hrem
      obtain ⟨l, hl, heq⟩ := Option.map_eq_some_iff.mp hrem
      rw [hl, ← heq, String.toList_ofList]
  | withPort =>
      refine ⟨fun _ => by simp, fun _ => hsame (joinHostPort host port) ?_⟩
      rw [joinHostPort, String.toList_ofList]
      split
      · next hin =>
          refine removePort_literal hhost.unbracketed ?_ hport
          have hpos := List.count_pos_iff.mpr hin
          have hone := hhost.colons
          omega
      · next hnot => exact removePort_named hnot hport

/-- An IPv6 literal with a port. -/
theorem removePort_recovers_loopback :
    removePortFromHost (Spelling.withPort.address "::1" "443") = some "::1" := by
  have h := (removePort_recovers_host "::1" "::1" "443" .withPort).2 ⟨by decide, by decide⟩
    (by decide) (by decide)
  exact (h.mpr (by decide)).1

/-- `[::1]` is taken for a literal with a port. -/
theorem removePort_bracketed_loopback :
    ¬ ∀ (host port : String) (spelling : Spelling), IsHost host → ':' ∉ port.toList →
      (spelling = .bracketed → 2 ≤ host.toList.count ':') →
      removePortFromHost (spelling.address host port) = some host := by
  intro h
  have hcut := h "::1" "443" .bracketed ⟨by decide, by decide⟩ (by decide) (by decide)
  exact absurd hcut (by decide)

end Konnectivity
