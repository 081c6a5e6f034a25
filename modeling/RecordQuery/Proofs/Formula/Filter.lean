import RecordQuery.Proofs.Formula.Derivation
import RecordQuery.Proofs.Parse

/-! Running a written query keeps the records that satisfy all of its conditions. Scanning gives the tokens of
    the written form, the grammar derives a tree from them, the tree compiles to its meaning, and the meaning
    is that of the formulas. -/

namespace RecordQuery
open Grammar Text

/-! ### Valid lexemes -/

theorem Path.valid_lexemes {p : Path} (h : p.Writable) : ∀ l ∈ p.lexemes, l.Valid := by
  intro l hl
  rcases List.mem_cons.mp hl with rfl | hl
  · exact h.1
  · obtain ⟨s, hs, hl⟩ := List.mem_flatMap.mp hl
    simp only [List.mem_cons, List.not_mem_nil, or_false] at hl
    rcases hl with rfl | rfl
    · rfl
    · exact h.2 s hs

theorem Literal.valid_lexemes {l : Literal} (h : l.Writable) : ∀ m ∈ l.lexemes, m.Valid := by
  have hdigits (n : Nat) : Lexeme.Valid ⟨.number, digitsOfNat n⟩ :=
    ⟨digitsOfNat_ne_nil n, fun _ => isDigit_of_mem_digitsOfNat⟩
  intro m hm
  cases l with
  | number n =>
    simp only [lexemes] at hm
    split at hm
    · simp only [List.mem_cons, List.not_mem_nil, or_false] at hm
      rcases hm with rfl | rfl
      · exact List.mem_cons_of_mem _ (List.mem_singleton_self _)
      · exact hdigits _
    · obtain rfl := List.mem_singleton.mp hm
      exact hdigits _
  | string s =>
    obtain rfl := List.mem_singleton.mp hm
    exact h
  | keyword k =>
    obtain rfl := List.mem_singleton.mp hm
    cases k <;> simp [Lexeme.Valid, Keyword.word, valueWords]

theorem valid_operatorLexeme {symbol : String} (h : symbol.toList ∈ operatorTexts) : (operatorLexeme symbol).Valid := h

theorem CompareOp.valid_symbol (op : CompareOp) : (operatorLexeme op.symbol).Valid := by
  cases op <;> simp [Lexeme.Valid, operatorLexeme, symbol, operatorTexts]

/-- A written part in parentheses. -/
theorem valid_group {ls : List Lexeme} (h : ∀ l ∈ ls, l.Valid) :
    ∀ l ∈ openLexeme :: (ls ++ [closeLexeme]), l.Valid := by
  refine List.forall_mem_cons.mpr ⟨rfl, fun l hl => ?_⟩
  rcases List.mem_append.mp hl with hl | hl
  · exact h l hl
  · obtain rfl := List.mem_singleton.mp hl
    rfl

theorem Formula.valid_grouped {f : Formula} (h : ∀ l ∈ f.lexemes, l.Valid) : ∀ l ∈ f.grouped f.lexemes, l.Valid := by
  unfold grouped
  split
  · exact valid_group h
  · exact h

/-- Two written parts around an operator. -/
theorem valid_append {ls ms : List Lexeme} {l : Lexeme} (hls : ∀ m ∈ ls, m.Valid) (hl : l.Valid)
    (hms : ∀ m ∈ ms, m.Valid) : ∀ m ∈ ls ++ l :: ms, m.Valid := by
  intro m hm
  rcases List.mem_append.mp hm with hm | hm
  · exact hls m hm
  · rcases List.mem_cons.mp hm with rfl | hm
    · exact hl
    · exact hms m hm

theorem Formula.valid_lexemes {f : Formula} (h : f.Writable) : ∀ l ∈ f.lexemes, l.Valid := by
  have hand : (operatorLexeme "&&").Valid := valid_operatorLexeme (by decide)
  have hor : (operatorLexeme "||").Valid := valid_operatorLexeme (by decide)
  have hnot : (operatorLexeme "!").Valid := valid_operatorLexeme (by decide)
  induction f with
  | pathFirst p op l => exact valid_append (Path.valid_lexemes h.1) op.valid_symbol (Literal.valid_lexemes h.2)
  | literalFirst l op p => exact valid_append (Literal.valid_lexemes h.2) op.valid_symbol (Path.valid_lexemes h.1)
  | path p => exact Path.valid_lexemes h
  | literal l => exact Literal.valid_lexemes h
  | negation p =>
    intro l hl
    rcases List.mem_cons.mp hl with rfl | hl
    · exact hnot
    · exact Path.valid_lexemes h l hl
  | and a b iha ihb => exact valid_append (valid_grouped (iha h.1)) hand (valid_grouped (ihb h.2))
  | or a b iha ihb => exact valid_append (iha h.1) hor (ihb h.2)

theorem valid_callLexemes {method parameter : String} {body : List Lexeme} (hm : IsName method.toList)
    (hx : IsName parameter.toList) (h : ∀ l ∈ body, l.Valid) : ∀ l ∈ callLexemes method parameter body, l.Valid := by
  have harrow : (operatorLexeme "=>").Valid := valid_operatorLexeme (by decide)
  have hbody := (List.forall_mem_cons.mp (valid_group h)).2
  intro l hl
  simp only [callLexemes, List.mem_cons] at hl
  rcases hl with rfl | rfl | rfl | rfl | rfl | hl
  · rfl
  · exact hm
  · rfl
  · exact hx
  · exact harrow
  · exact hbody l hl

theorem valid_queryLexemes {clauses : List Clause} (h : ∀ c ∈ clauses, c.Writable) :
    ∀ l ∈ queryLexemes clauses, l.Valid := by
  refine List.forall_mem_cons.mpr ⟨rfl, fun l hl => ?_⟩
  obtain ⟨c, hc, hl⟩ := List.mem_flatMap.mp hl
  have hname : IsName "Where".toList := by decide
  exact valid_callLexemes hname (h c hc).1 (Formula.valid_lexemes (h c hc).2) l hl

/-! ### Calls -/

/-- The written form of a clause is derived as a call that keeps the records with the clause's condition. -/
theorem Clause.call_of_lexemes {c : Clause} {w : List Token} (h : w.map Token.toLexeme = c.lexemes) :
    ∃ call, CallTokens w call ∧ Evaluator.standard.stage call = .ok (Method.keep fun r => c.condition.holds r) := by
  obtain ⟨v, hv, hcall⟩ := callTokens_of_lexemes h
  obtain ⟨b, hb, hholds⟩ := c.condition.derived.2 v hv
  have hmethod : Evaluator.standard.methods.get? "Where" = some .keep := rfl
  refine ⟨_, hcall b hb, ?_⟩
  rw [Evaluator.stage_of_no_fault (Evaluator.fault?_eq_none_iff.mpr ⟨⟨_, hmethod⟩, hb.simple.faults⟩),
    Evaluator.run_eq hmethod]
  simp only [hholds]

theorem calls_of_lexemes {clauses : List Clause} {w : List Token}
    (h : w.map Token.toLexeme = clauses.flatMap Clause.lexemes) :
    ∃ q, CallsTokens w q ∧
      Evaluator.standard.stages q = .ok (clauses.map fun c => Method.keep fun r => c.condition.holds r) := by
  induction clauses generalizing w with
  | nil =>
    obtain rfl := List.map_eq_nil_iff.mp h
    exact ⟨[], .nil, rfl⟩
  | cons c clauses ih =>
    obtain ⟨v, w, rfl, hv, hw⟩ := List.map_eq_append_iff.mp h
    obtain ⟨call, hcall, hstage⟩ := c.call_of_lexemes hv
    obtain ⟨q, hq, hstages⟩ := ih hw
    exact ⟨call :: q, .cons hcall hq, by simp [Evaluator.stages, hstages, hstage, Except.map]⟩

/-! ### Queries -/

/-- The tokens of a written query are accepted, and the tree compiles to the conditions. -/
theorem parse_of_writes {clauses : List Clause} {text : String} (h : Writes (queryLexemes clauses) text.toList)
    (hc : ∀ c ∈ clauses, c.Writable) :
    ∃ q, parse text = .ok q ∧
      Evaluator.standard.stages q = .ok (clauses.map fun c => Method.keep fun r => c.condition.holds r) := by
  obtain ⟨ts, n, hscan, hts⟩ := scan_of_writes h (valid_queryLexemes hc)
  obtain ⟨this, w, rfl, hthis, hw⟩ := List.map_eq_cons_iff.mp hts
  obtain ⟨q, hq, hstages⟩ := calls_of_lexemes hw
  exact ⟨q, parse_of_callsTokens hscan (toLexeme_eq hthis).1 hq, hstages⟩

/-- A written query keeps the records that satisfy all of its conditions, in their order. -/
theorem filter_of_writes {clauses : List Clause} {text : String} (h : Writes (queryLexemes clauses) text.toList)
    (hc : ∀ c ∈ clauses, c.Writable) (records : List Value) :
    filter text records = .ok (records.filter fun r => clauses.all fun c => c.condition.holds r) := by
  obtain ⟨q, hparse, hstages⟩ := parse_of_writes h hc
  rw [filter, filterWith, hparse]
  simp only [Evaluator.evaluate, hstages]
  rw [← Evaluator.runStages_keep]
  rfl

/-- A disjunction in a group, a negative number and a negated path, with a space after each token. -/
theorem filter_of_writes_group :
    filter "this . Where ( x => x . a == - 1 && ( x . b || ! x . c ) ) "
      [.object [("a", .integer (-1)), ("b", .null)], .object [("a", .integer (-1)), ("c", .bool true)], .null] =
      .ok [.object [("a", .integer (-1)), ("b", .null)]] := by
  let clauses : List Clause :=
    [⟨"x", .and (.pathFirst ⟨"x", ["a"]⟩ .equal (.number (-1))) (.or (.path ⟨"x", ["b"]⟩) (.negation ⟨"x", ["c"]⟩))⟩]
  have hw : Writes (queryLexemes clauses)
      "this . Where ( x => x . a == - 1 && ( x . b || ! x . c ) ) ".toList :=
    Writes.of_gap (by decide : Blanks [' ']) (by decide) _
  rw [filter_of_writes hw (by decide : ∀ c ∈ clauses, c.Writable)]
  rfl

end RecordQuery
