import RecordQuery.Pipeline
import RecordQuery.Proofs.Grammar.Known
import RecordQuery.Proofs.Grammar.Shape

/-! Parsing a text: it is scanned, and the grammar derives a query from its tokens. -/

namespace RecordQuery
open Grammar

theorem parseWith_eq_ok_iff {known : Option (List String)} {text : String} {q : Query} :
    parseWith known text = .ok q ↔ ∃ ts, scan text = .ok ts ∧ parseTokens known ts = .ok q := by
  rw [parseWith]
  cases scan text with
  | error e => simp
  | ok ts => cases h : parseTokens known ts <;> simp [h, mapError_ok, mapError_error]

theorem parseWith_known_iff {names : List String} {text : String} {q : Query} :
    parseWith (some names) text = .ok q ↔ parse text = .ok q ∧ ∀ c ∈ q, c.method ∈ names := by
  simp only [parse, parseWith_eq_ok_iff, parseTokens_known_iff]
  exact ⟨fun ⟨ts, hts, hq, hall⟩ => ⟨⟨ts, hts, hq⟩, hall⟩, fun ⟨⟨ts, hts, hq⟩, hall⟩ => ⟨ts, hts, hq, hall⟩⟩

theorem exists_linqExpr_of_parse {text : String} {q : Query} (h : parse text = .ok q) :
    ∃ w rest, scan text = .ok (w ++ rest) ∧ AtEnd rest ∧ LinqExpr w q := by
  obtain ⟨ts, hscan, hts⟩ := parseWith_eq_ok_iff.mp h
  obtain ⟨rest, hchain, hrest⟩ := parseTokens_eq_ok.mp hts
  obtain ⟨w, rfl, hw⟩ := sound_chain none hchain
  exact ⟨w, rest, hscan, hrest, hw⟩

/-- Calls that are derived from the tokens between `this` and the end are the query. -/
theorem parse_of_callsTokens {text : String} {this : Token} {w : List Token} {n : Nat} {q : Query}
    (hscan : scan text = .ok (this :: w ++ [.atEnd n])) (ht : this.kind = .this) (hq : CallsTokens w q) :
    parse text = .ok q := by
  have hlinq : LinqExpr (this :: w) q := linqExpr_iff.mpr ⟨this, w, rfl, ht, hq⟩
  have hend : AtEnd [Token.atEnd n] := .inr ⟨_, [], rfl, rfl⟩
  exact parseWith_eq_ok_iff.mpr ⟨_, hscan, parseTokens_eq_ok.mpr ⟨_, hlinq.read hend.endsPath, hend⟩⟩

theorem Grammar.CallsTokens.simple {w : List Token} {q : Query} (h : CallsTokens w q) :
    ∀ c ∈ q, (Expr.logical c.lambda.body).Simple := by
  induction h with
  | nil => nofun
  | cons hc _ ih =>
    refine List.forall_mem_cons.mpr ⟨?_, ih⟩
    obtain ⟨-, -, -, ⟨-, -, hbody⟩, -⟩ := hc
    exact hbody.simple

/-- The conditions of a query that is written compare paths with literals. -/
theorem simple_of_parse {text : String} {q : Query} (h : parse text = .ok q) :
    ∀ c ∈ q, (Expr.logical c.lambda.body).Simple := by
  obtain ⟨w, -, -, -, hw⟩ := exists_linqExpr_of_parse h
  obtain ⟨t, v, -, -, hcalls⟩ := linqExpr_iff.mp hw
  exact hcalls.simple

end RecordQuery
