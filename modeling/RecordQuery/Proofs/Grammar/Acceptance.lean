import RecordQuery.Proofs.Grammar.Complete
import RecordQuery.Proofs.Grammar.Sound

/-! A list of tokens is accepted if and only if the grammar derives what stands before its first end
    token, or all of it if it has none, and the tree is the one that the derivation gives. -/

namespace RecordQuery.Grammar
open Parsing

/-! ### No rule takes the end -/

theorem kind_of_isOperator {t : Token} {symbol : String} (h : t.isOperator symbol = true) : t.kind = .operator := by
  simp only [Token.isOperator, Bool.and_eq_true, beq_iff_eq] at h
  exact h.1

theorem Fields.ne_ending {w : List Token} {names : List String} (h : Fields w names) : ∀ t ∈ w, t.kind ≠ .ending := by
  induction h with
  | nil => simp
  | cons hd hn _ ih => simpa [hd, hn] using ih

theorem MemberAccess.ne_ending {w : List Token} {p : Path} (h : MemberAccess w p) : ∀ t ∈ w, t.kind ≠ .ending := by
  obtain ⟨hn, hf⟩ := h
  simpa [hn] using hf.ne_ending

theorem ValueExpr.ne_ending {w : List Token} {e : Expr} (h : ValueExpr w e) : ∀ t ∈ w, t.kind ≠ .ending := by
  cases h with
  | number ht | string ht | keyword ht => simp [ht]
  | negative hs _ ht => simp [hs, ht]

theorem ne_ending_append {v w : List Token} {t : Token} (hv : ∀ u ∈ v, u.kind ≠ .ending) (ht : t.kind ≠ .ending)
    (hw : ∀ u ∈ w, u.kind ≠ .ending) : ∀ u ∈ v ++ t :: w, u.kind ≠ .ending := by
  intro u hu
  rcases List.mem_append.mp hu with hu | hu
  · exact hv u hu
  · rcases List.mem_cons.mp hu with rfl | hu
    · exact ht
    · exact hw u hu

mutual

theorem ComparisonExpr.ne_ending {w : List Token} {e : Expr} : ComparisonExpr w e → ∀ t ∈ w, t.kind ≠ .ending
  | .path hp => hp.ne_ending
  | .pathFirst hp ht he => ne_ending_append hp.ne_ending (by simp [ht.1]) he.ne_ending
  | .value he => he.ne_ending
  | .valueFirst he ht hp => ne_ending_append he.ne_ending (by simp [ht.1]) hp.ne_ending
  | .group hl h hr => by
    simpa [hl] using ne_ending_append (OrExpr.ne_ending h) (by simp [hr]) (w := []) (by simp)
  | .negation ht hp => by simpa [kind_of_isOperator ht] using hp.ne_ending

theorem AndChain.ne_ending {w : List Token} {c : Condition} : AndChain w c → ∀ t ∈ w, t.kind ≠ .ending
  | .two ha ht hb =>
    ne_ending_append (ComparisonExpr.ne_ending ha) (by simp [kind_of_isOperator ht]) (ComparisonExpr.ne_ending hb)
  | .more h ht hb =>
    ne_ending_append (AndChain.ne_ending h) (by simp [kind_of_isOperator ht]) (ComparisonExpr.ne_ending hb)

theorem AndExpr.ne_ending {w : List Token} {c : Condition} : AndExpr w c → ∀ t ∈ w, t.kind ≠ .ending
  | .lone ha => ComparisonExpr.ne_ending ha
  | .chain h => AndChain.ne_ending h

theorem OrExpr.ne_ending {w : List Token} {c : Condition} : OrExpr w c → ∀ t ∈ w, t.kind ≠ .ending
  | .one h => AndExpr.ne_ending h
  | .more h ht hb =>
    ne_ending_append (OrExpr.ne_ending h) (by simp [kind_of_isOperator ht]) (AndExpr.ne_ending hb)

end

theorem LinqExpr.ne_ending {w : List Token} {q : Query} (h : LinqExpr w q) : ∀ t ∈ w, t.kind ≠ .ending := by
  induction h with
  | this ht => simp [ht]
  | call _ hd hn hl hf hr ih =>
    obtain ⟨hp, ha, hc⟩ := hf
    refine ne_ending_append ih (by simp [hd]) ?_
    have hin := ne_ending_append hc.ne_ending (t := _) (by rw [hr]; simp) (w := []) (by simp)
    simpa [hn, hl, hp, kind_of_isOperator ha] using hin

/-! ### Acceptance -/

/-- The list starts with an end token or is empty. -/
def AtEnd (ts : List Token) : Prop := ts = [] ∨ ∃ t more, ts = t :: more ∧ t.kind = .ending

theorem AtEnd.endsPath {ts : List Token} (h : AtEnd ts) : EndsPath ts := by
  rcases h with rfl | ⟨t, more, rfl, ht⟩
  · nofun
  · exact endsPath_cons (by simp [ht])

theorem ending_isOk_iff {ts : List Token} : (∃ rest, ending ts = .ok rest) ↔ AtEnd ts := by
  cases ts with
  | nil => exact ⟨fun _ => Or.inl rfl, fun _ => ⟨[], rfl⟩⟩
  | cons t more =>
    by_cases ht : t.kind = .ending
    · exact ⟨fun _ => Or.inr ⟨t, more, rfl, ht⟩, fun _ => ⟨more, by simp [ending, ht]⟩⟩
    · simp [ending, AtEnd, ht]

theorem query_eq_ok {known : Option (List String)} {ts rest : List Token} {q : Query} :
    query known ts = .ok (q, rest) ↔ ∃ us, chain known ts = .ok (q, us) ∧ ending us = .ok rest := by
  constructor
  · intro h
    unfold query at h
    split at h
    · cases h
    · rename_i q' us hc
      obtain ⟨r, hr, heq⟩ := map_eq_ok h
      cases heq
      exact ⟨us, hc, hr⟩
  · rintro ⟨us, hc, hr⟩
    simp [query, hc, hr, Except.map]

theorem parseTokens_eq_ok {known : Option (List String)} {ts : List Token} {q : Query} :
    parseTokens known ts = .ok q ↔ ∃ rest, chain known ts = .ok (q, rest) ∧ AtEnd rest := by
  have hquery : parseTokens known ts = .ok q ↔ ∃ rest, query known ts = .ok (q, rest) := by
    simp only [parseTokens, Parser.ofTokens, Parser.next]
    cases query known ts with
    | error e => simp
    | ok r =>
      obtain ⟨q', rest⟩ := r
      simp
  simp only [hquery, query_eq_ok, ← ending_isOk_iff]
  exact ⟨fun ⟨rest, us, hc, hr⟩ => ⟨us, hc, rest, hr⟩, fun ⟨us, hc, rest, hr⟩ => ⟨rest, us, hc, hr⟩⟩

/-- The grammar gives a list of tokens one tree at most. -/
theorem LinqExpr.unique {w : List Token} {q q' : Query} (h : LinqExpr w q) (h' : LinqExpr w q') : q = q' := by
  have hr : EndsPath [] := nofun
  have hq := h.read hr
  rw [h'.read hr] at hq
  cases hq
  rfl

/-- The parser accepts what the grammar derives, up to the first end token or the end of the list, and
    builds the tree of the derivation. -/
theorem parseTokens_eq_ok_iff (ts : List Token) (e : Expr) :
    (parseTokens none ts).map Expr.chain = .ok e ↔
      ∃ w rest q, ts = w ++ rest ∧ AtEnd rest ∧ (∀ t ∈ w, t.kind ≠ .ending) ∧ LinqExpr w q ∧ e = .chain q := by
  constructor
  · intro h
    obtain ⟨q, hq, rfl⟩ := map_eq_ok h
    obtain ⟨rest, hc, hr⟩ := parseTokens_eq_ok.mp hq
    obtain ⟨w, rfl, hw⟩ := sound_chain none hc
    exact ⟨w, rest, q, rfl, hr, hw.ne_ending, hw, rfl⟩
  · rintro ⟨w, rest, q, rfl, hr, -, hw, rfl⟩
    have hq : parseTokens none (w ++ rest) = .ok q := parseTokens_eq_ok.mpr ⟨rest, hw.read hr.endsPath, hr⟩
    rw [hq]
    rfl

end RecordQuery.Grammar
