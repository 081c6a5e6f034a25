import RecordQuery.Proofs.Grammar.Acceptance
import RecordQuery.Proofs.Grammar.Viable

/-! A parse error reports the first token after which nothing can follow: the tokens before it can be
    completed to a query, and no query starts with them and the token. -/

namespace RecordQuery.Grammar
open Parsing

/-- The position that a parser reports where the tokens are at an end. -/
def lastPosition (ts : List Token) : Nat := (ts.getLast?.map (·.position)).getD 0

theorem parseTokens_eq_error {known : Option (List String)} {ts : List Token} {e : ParseError} :
    parseTokens known ts = .error e ↔ ∃ stop, query known ts = .error stop ∧ e = stop.error (lastPosition ts) := by
  simp only [parseTokens, Parser.ofTokens, Parser.next, lastPosition]
  cases query known ts with
  | error stop => simp [eq_comm]
  | ok r => simp

theorem LinqExpr.accepted {w : List Token} {q : Query} (h : LinqExpr w q) : parseTokens none w = .ok q := by
  have hempty : AtEnd [] := .inl rfl
  exact parseTokens_eq_ok.mpr ⟨[], by simpa using h.read hempty.endsPath, hempty⟩

/-- Nothing can be read past a token that is reported. -/
theorem ne_ok_of_error {known : Option (List String)} {ts : List Token} {stop : Stop}
    (h : query known ts = .error stop) :
    ∃ v, ts = v ++ stop.found ∧
      ∀ t rest, stop.found = t :: rest → ∀ w q, parseTokens known (v ++ t :: w) ≠ .ok q := by
  obtain ⟨v, hv, hmoved⟩ := query_moved h
  refine ⟨v, hv, fun t rest hfound w q hok => ?_⟩
  have herror := parseTokens_eq_error.mpr ⟨_, hmoved (t :: w) (by rw [hfound]; rfl), rfl⟩
  rw [hok] at herror
  cases herror

/-- If a list of tokens has an end, every error reports one of its tokens, and this is the first one after which nothing
    can follow. -/
theorem parseTokens_error_located {ts : List Token} {e : ParseError} (hend : ∃ t ∈ ts, t.kind = .ending)
    (h : parseTokens none ts = .error e) :
    ∃ v t rest, ts = v ++ t :: rest ∧ Locates v t e ∧ (∃ w q, parseTokens none (v ++ w) = .ok q) ∧
      ∀ w q, parseTokens none (v ++ t :: w) ≠ .ok q := by
  obtain ⟨stop, hstop, rfl⟩ := parseTokens_eq_error.mp h
  obtain ⟨v, hv, ⟨w, q, hq⟩, hlocates⟩ := stops_query ts stop hstop
  obtain ⟨v', hv', hdead⟩ := ne_ok_of_error hstop
  obtain rfl : v = v' := List.append_cancel_right (hv.symm.trans hv')
  cases hfound : stop.found with
  | nil =>
    -- The tokens before the reported one start a query, and a query has no end among its tokens.
    obtain ⟨t, ht, hk⟩ := hend
    rw [hv, hfound, List.append_nil] at ht
    exact absurd hk (hq.ne_ending t (List.mem_append_left w ht))
  | cons t rest =>
    exact ⟨v, t, rest, hfound ▸ hv, hlocates t rest _ hfound, ⟨w, q, hq.accepted⟩, hdead t rest hfound⟩

/-- In `this.Where(x => -9223372036854775809)` the numeral is reported with its sign. -/
theorem parseTokens_error_located_negative :
    let ts : List Token := [⟨.this, some "this", 0⟩, ⟨.dot, some ".", 4⟩, ⟨.identifier, some "Where", 5⟩,
      ⟨.openParen, some "(", 10⟩, ⟨.identifier, some "x", 11⟩, ⟨.operator, some "=>", 13⟩, ⟨.addSub, some "-", 16⟩,
      ⟨.number, some "9223372036854775809", 17⟩, ⟨.closeParen, some ")", 36⟩, .atEnd 37]
    let e : ParseError := ⟨17, .numberInRange, .number, some "-9223372036854775809"⟩
    (∃ t ∈ ts, t.kind = .ending) ∧ parseTokens none ts = .error e ∧
      ∃ v t rest, ts = v ++ t :: rest ∧ Locates v t e ∧ (∃ w q, parseTokens none (v ++ w) = .ok q) ∧
        ∀ w q, parseTokens none (v ++ t :: w) ≠ .ok q := by
  intro ts e
  have hend : ∃ t ∈ ts, t.kind = .ending := ⟨.atEnd 37, by simp [ts], rfl⟩
  have herror : parseTokens none ts = .error e := by rfl
  exact ⟨hend, herror, parseTokens_error_located hend herror⟩

end RecordQuery.Grammar
