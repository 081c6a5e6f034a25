import RecordQuery.Proofs.Grammar.Acceptance

/-! A parser that knows the names of the methods. It goes the same way as one that takes any name, up to the first
    name that it does not know, so it accepts the queries that have known names only and gives them the same tree. -/

namespace RecordQuery.Grammar
open Parsing

variable {names : List String}

/-! ### Names -/

theorem methodName_of_mem {ts : List Token} (h : ∀ s rest, name ts = .ok (s, rest) → s ∈ names) :
    methodName (some names) ts = name ts := by
  cases ts with
  | nil => rfl
  | cons t ts =>
    refine if_neg fun hu => hu.2 ?_
    exact h _ _ (name_cons hu.1)

theorem methodName_of_not_mem {ts rest : List Token} {s : String} (h : name ts = .ok (s, rest)) (hs : s ∉ names) :
    methodName (some names) ts = .error (.unexpected (.methodName names) ts) := by
  obtain ⟨t, rfl, ht, rfl⟩ := name_eq_ok h
  exact if_pos ⟨ht, hs⟩

/-! ### Calls -/

/-- A call starts with the name of its method. -/
theorem name_of_call {known : Option (List String)} {bound : Nat} {ts rest : List Token} {c : Call Expr}
    (h : call known bound ts = .ok (c, rest)) : ∃ us, methodName known ts = .ok (c.method, us) := by
  unfold call at h
  split at h
  · cases h
  · rename_i method us hm
    refine ⟨us, ?_⟩
    split at h
    · cases h
    · split at h
      · cases h
      · obtain ⟨_, -, heq⟩ := map_eq_ok h
        cases heq
        exact hm

theorem call_congr {known known' : Option (List String)} {ts : List Token} (bound : Nat)
    (h : methodName known ts = methodName known' ts) : call known bound ts = call known' bound ts := by
  rw [call, call, h]

theorem call_of_error {known : Option (List String)} {ts : List Token} {stop : Stop} (bound : Nat)
    (h : methodName known ts = .error stop) : call known bound ts = .error stop := by
  rw [call, h]

theorem call_known_iff {bound : Nat} {ts rest : List Token} {c : Call Expr} :
    call (some names) bound ts = .ok (c, rest) ↔ call none bound ts = .ok (c, rest) ∧ c.method ∈ names := by
  by_cases h : ∀ s us, name ts = .ok (s, us) → s ∈ names
  · have hcall : call (some names) bound ts = call none bound ts := call_congr bound (methodName_of_mem h)
    rw [hcall, iff_self_and]
    intro hc
    obtain ⟨us, hus⟩ := name_of_call hc
    exact h _ us hus
  · simp only [Classical.not_forall] at h
    obtain ⟨s, us, hname, hs⟩ := h
    rw [call_of_error bound (methodName_of_not_mem hname hs)]
    refine ⟨nofun, fun ⟨hc, hmem⟩ => ?_⟩
    obtain ⟨vs, hvs⟩ := name_of_call hc
    have hsame : s = c.method := by
      have := hname.symm.trans hvs
      cases this
      rfl
    exact absurd (hsame ▸ hmem) hs

theorem calls_dot_eq_ok_iff {known : Option (List String)} {bound k : Nat} {t : Token} {ts rest : List Token}
    {q : Query} (ht : t.kind = .dot) :
    calls known bound (k + 1) (t :: ts) = .ok (q, rest) ↔
      ∃ c us cs, call known bound ts = .ok (c, us) ∧ calls known bound k us = .ok (cs, rest) ∧ q = c :: cs := by
  rw [calls, if_pos ht]
  constructor
  · intro h
    split at h
    · cases h
    · rename_i c us hc
      obtain ⟨⟨cs, r⟩, hcs, heq⟩ := map_eq_ok h
      cases heq
      exact ⟨c, us, cs, hc, hcs, rfl⟩
  · rintro ⟨c, us, cs, hc, hcs, rfl⟩
    simp [hc, hcs, Except.map]

theorem calls_known_iff {bound k : Nat} {ts rest : List Token} {q : Query} :
    calls (some names) bound k ts = .ok (q, rest) ↔
      calls none bound k ts = .ok (q, rest) ∧ ∀ c ∈ q, c.method ∈ names := by
  have hnone {q : Query} {us vs : List Token} (h : Except.ok ([], us) = (Except.ok (q, vs) : Parsing Query)) :
      ∀ c ∈ q, c.method ∈ names := by
    cases h
    nofun
  induction k generalizing ts q with
  | zero => exact ⟨fun h => ⟨h, hnone h⟩, And.left⟩
  | succ k ih =>
    cases ts with
    | nil => exact ⟨fun h => ⟨h, hnone h⟩, And.left⟩
    | cons t ts =>
      by_cases ht : t.kind = .dot
      · simp only [calls_dot_eq_ok_iff ht, call_known_iff]
        constructor
        · rintro ⟨c, us, cs, ⟨hc, hmem⟩, hcs, rfl⟩
          obtain ⟨hcs, hall⟩ := ih.mp hcs
          exact ⟨⟨c, us, cs, hc, hcs, rfl⟩, List.forall_mem_cons.mpr ⟨hmem, hall⟩⟩
        · rintro ⟨⟨c, us, cs, hc, hcs, rfl⟩, hall⟩
          obtain ⟨hmem, hall⟩ := List.forall_mem_cons.mp hall
          exact ⟨c, us, cs, ⟨hc, hmem⟩, ih.mpr ⟨hcs, hall⟩, rfl⟩
      · simp only [calls, if_neg ht]
        exact ⟨fun h => ⟨h, hnone h⟩, And.left⟩

theorem chain_known_iff {ts rest : List Token} {q : Query} :
    chain (some names) ts = .ok (q, rest) ↔ chain none ts = .ok (q, rest) ∧ ∀ c ∈ q, c.method ∈ names := by
  rw [chain, chain]
  cases token .this .this ts with
  | error e => exact ⟨fun h => (by cases h), fun h => (by cases h.1)⟩
  | ok r => exact calls_known_iff

/-- With known names the parser accepts what it accepts otherwise, if all methods have known names. -/
theorem parseTokens_known_iff {ts : List Token} {q : Query} :
    parseTokens (some names) ts = .ok q ↔ parseTokens none ts = .ok q ∧ ∀ c ∈ q, c.method ∈ names := by
  simp only [parseTokens_eq_ok, chain_known_iff]
  exact ⟨fun ⟨rest, ⟨hc, hall⟩, hr⟩ => ⟨⟨rest, hc, hr⟩, hall⟩, fun ⟨⟨rest, hc, hr⟩, hall⟩ => ⟨rest, ⟨hc, hall⟩, hr⟩⟩

end RecordQuery.Grammar
