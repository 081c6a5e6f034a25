import RecordQuery.Proofs.Formula.Filter
import RecordQuery.Proofs.Grammar.WellFormed
import RecordQuery.Proofs.Scan.Layout

/-! Printing a tree as a query. Every tree has a text, and the trees that are read back from their own texts are the
    ones that are read from any text at all. -/

namespace RecordQuery
open Grammar

/-! ### Printed form -/

def Expr.isLogical : Expr → Bool
  | .logical _ => true
  | _ => false

/-- The printed form of a tree as an operand of `&&`. -/
def Expr.grouped (e : Expr) (lexemes : List Lexeme) : List Lexeme :=
  if e.isLogical then openLexeme :: (lexemes ++ [closeLexeme]) else lexemes

/-- The printed form of a node, from the printed forms of its sides. The sides of `||` need no parentheses, since the
    grammar groups them so. -/
def nodeLexemes (node : Junction Expr) (left right : List Lexeme) : List Lexeme :=
  match node.op with
  | .and => node.left.grouped left ++ operatorLexeme "&&" :: node.right.grouped right
  | .or => left ++ operatorLexeme "||" :: right

mutual

/-- The printed form of a tree. -/
def Expr.lexemes : Expr → List Lexeme
  | .empty => []
  | .number n => (Literal.number n).lexemes
  | .string s => (Literal.string s).lexemes
  | .keyword k => (Literal.keyword k).lexemes
  | .identifier name => [nameLexeme name]
  | .path p => p.lexemes
  | .negation p => operatorLexeme "!" :: p.lexemes
  | .comparison op left right => left.lexemes ++ operatorLexeme op.symbol :: right.lexemes
  | .logical ⟨op, left, right⟩ => nodeLexemes ⟨op, left, right⟩ left.lexemes right.lexemes
  | .lambda ⟨parameter, ⟨op, left, right⟩⟩ =>
    nameLexeme parameter :: operatorLexeme "=>" :: nodeLexemes ⟨op, left, right⟩ left.lexemes right.lexemes
  | .chain calls => ⟨.this, ['t', 'h', 'i', 's']⟩ :: callsLexemes calls

/-- The printed form of calls one after another. -/
def callsLexemes : List (Call Expr) → List Lexeme
  | [] => []
  | ⟨method, ⟨parameter, ⟨op, left, right⟩⟩⟩ :: calls =>
    callLexemes method parameter (nodeLexemes ⟨op, left, right⟩ left.lexemes right.lexemes) ++ callsLexemes calls

end

/-- The text that a tree is printed as. -/
def Expr.text (e : Expr) : String := String.ofList (layout e.lexemes)

example :
    (Expr.chain [⟨"Where", ⟨"this_", ⟨.or,
      .logical ⟨.and, .comparison .less (.number Int64.minValue) (.path ⟨"this_", ["nullable"]⟩),
        .logical ⟨.and, .negation ⟨"this_", []⟩, .string "b"⟩⟩,
      .logical ⟨.and, .path ⟨"this_", []⟩, .keyword .true⟩⟩⟩⟩]).text =
    "this.Where(this_ => -9223372036854775808 < this_.nullable && (!this_ && \"b\") || this_ && true)" := by
  decide +kernel

theorem Literal.grouped_expr (l : Literal) : l.expr.grouped l.expr.lexemes = l.lexemes := by
  cases l <;> rfl

theorem lexemes_pathFirst (op : CompareOp) (p : Path) (l : Literal) :
    (Expr.comparison op (.path p) l.expr).lexemes = p.lexemes ++ operatorLexeme op.symbol :: l.lexemes := by
  cases l <;> rfl

theorem lexemes_literalFirst (op : CompareOp) (l : Literal) (p : Path) :
    (Expr.comparison op l.expr (.path p)).lexemes = l.lexemes ++ operatorLexeme op.symbol :: p.lexemes := by
  cases l <;> rfl

theorem callsLexemes_cons (c : Call Expr) (q : Query) :
    callsLexemes (c :: q) =
      callLexemes c.method c.lambda.parameter (Expr.logical c.lambda.body).lexemes ++ callsLexemes q :=
  rfl

/-! ### What is printed is valid -/

mutual

theorem Expr.IsTerm.valid {e : Expr} : e.IsTerm → ∀ l ∈ e.grouped e.lexemes, l.Valid
  | .path hp => Path.valid_lexemes hp
  | .negation hp => List.forall_mem_cons.mpr ⟨valid_operatorLexeme (by decide), Path.valid_lexemes hp⟩
  | .literal hl => by
    rw [Literal.grouped_expr]
    exact Literal.valid_lexemes hl
  | .pathFirst hp hl => by
    rw [Expr.grouped, if_neg nofun, lexemes_pathFirst]
    exact valid_append (Path.valid_lexemes hp) (CompareOp.valid_symbol _) (Literal.valid_lexemes hl)
  | .literalFirst hl hp => by
    rw [Expr.grouped, if_neg nofun, lexemes_literalFirst]
    exact valid_append (Literal.valid_lexemes hl) (CompareOp.valid_symbol _) (Path.valid_lexemes hp)
  | .group h => valid_group (Condition.IsOr.valid h)

theorem Condition.IsAnd.valid {c : Condition} : Condition.IsAnd c → ∀ l ∈ (Expr.logical c).lexemes, l.Valid
  | .mk hl hr => valid_append (Expr.IsTerm.valid hl) (valid_operatorLexeme (by decide)) (Expr.IsTerm.valid hr)

theorem Condition.IsOr.valid {c : Condition} : Condition.IsOr c → ∀ l ∈ (Expr.logical c).lexemes, l.Valid
  | .and h => Condition.IsAnd.valid h
  | .or hl hr =>
    valid_append (Condition.IsOr.valid hl) (valid_operatorLexeme (by decide)) (Condition.IsAnd.valid hr)

end

theorem valid_callsLexemes {q : Query} (hq : ∀ c ∈ q, Call.WellFormed c) : ∀ l ∈ callsLexemes q, l.Valid := by
  induction q with
  | nil => nofun
  | cons c q ih =>
    obtain ⟨hc, hq⟩ := List.forall_mem_cons.mp hq
    rw [callsLexemes_cons]
    intro l hl
    rcases List.mem_append.mp hl with hl | hl
    · exact valid_callLexemes hc.method hc.parameter hc.body.valid l hl
    · exact ih hq l hl

theorem Expr.WellFormed.valid {e : Expr} (h : e.WellFormed) : ∀ l ∈ e.lexemes, l.Valid := by
  obtain ⟨hq⟩ := h
  exact List.forall_mem_cons.mpr ⟨rfl, valid_callsLexemes hq⟩

/-! ### What is printed is read back -/

mutual

theorem Expr.IsTerm.comparisonExpr {e : Expr} {w : List Token} :
    e.IsTerm → w.map Token.toLexeme = e.grouped e.lexemes → ComparisonExpr w e
  | .path _, h => .path (memberAccess_of_lexemes h)
  | .negation _, h => by
    obtain ⟨t, v, rfl, ht, hp⟩ := List.map_eq_cons_iff.mp h
    exact .negation (isOperator_of_toLexeme ht) (memberAccess_of_lexemes hp)
  | .literal _, h => by
    rw [Literal.grouped_expr] at h
    exact .value (valueExpr_of_lexemes h)
  | .pathFirst _ _, h => by
    rw [Expr.grouped, if_neg nofun, lexemes_pathFirst] at h
    obtain ⟨v, w, rfl, hp, h⟩ := List.map_eq_append_iff.mp h
    obtain ⟨t, w, rfl, ht, hl⟩ := List.map_eq_cons_iff.mp h
    exact .pathFirst (memberAccess_of_lexemes hp) (isCompareOp_of_toLexeme ht) (valueExpr_of_lexemes hl)
  | .literalFirst _ _, h => by
    rw [Expr.grouped, if_neg nofun, lexemes_literalFirst] at h
    obtain ⟨v, w, rfl, hl, h⟩ := List.map_eq_append_iff.mp h
    obtain ⟨t, w, rfl, ht, hp⟩ := List.map_eq_cons_iff.mp h
    exact .valueFirst (valueExpr_of_lexemes hl) (isCompareOp_of_toLexeme ht) (memberAccess_of_lexemes hp)
  | .group hc, h => by
    obtain ⟨v, hv, hgroup⟩ := comparisonExpr_group h
    exact hgroup _ (Condition.IsOr.orExpr hc hv)

theorem Condition.IsAnd.andExpr {c : Condition} {w : List Token} :
    Condition.IsAnd c → w.map Token.toLexeme = (Expr.logical c).lexemes → AndExpr w c
  | .mk hl hr, h => by
    obtain ⟨v, w, rfl, ha, h⟩ := List.map_eq_append_iff.mp h
    obtain ⟨t, w, rfl, ht, hb⟩ := List.map_eq_cons_iff.mp h
    have hleft := Expr.IsTerm.comparisonExpr hl ha
    have hright := Expr.IsTerm.comparisonExpr hr hb
    exact .chain (.two hleft (isOperator_of_toLexeme ht) hright)

theorem Condition.IsOr.orExpr {c : Condition} {w : List Token} :
    Condition.IsOr c → w.map Token.toLexeme = (Expr.logical c).lexemes → OrExpr w c
  | .and hc, h => .one (Condition.IsAnd.andExpr hc h)
  | .or hl hr, h => by
    obtain ⟨v, w, rfl, ha, h⟩ := List.map_eq_append_iff.mp h
    obtain ⟨t, w, rfl, ht, hb⟩ := List.map_eq_cons_iff.mp h
    have hleft := Condition.IsOr.orExpr hl ha
    have hright := Condition.IsAnd.andExpr hr hb
    exact .more hleft (isOperator_of_toLexeme ht) hright

end

theorem callsTokens_of_wellFormed {q : Query} {w : List Token} (hq : ∀ c ∈ q, Call.WellFormed c)
    (h : w.map Token.toLexeme = callsLexemes q) : CallsTokens w q := by
  induction q generalizing w with
  | nil =>
    obtain rfl := List.map_eq_nil_iff.mp h
    exact .nil
  | cons c q ih =>
    obtain ⟨hc, hq⟩ := List.forall_mem_cons.mp hq
    rw [callsLexemes_cons] at h
    obtain ⟨v, w, rfl, hv, hw⟩ := List.map_eq_append_iff.mp h
    obtain ⟨u, hu, hcall⟩ := callTokens_of_lexemes hv
    exact .cons (hcall _ (hc.body.orExpr hu)) (ih hq hw)

/-- A tree that can be written is read from every text that spells it. -/
theorem parse_of_spells {e : Expr} {text : String} (he : e.WellFormed) (h : Spells e.lexemes text.toList) :
    (parse text).map Expr.chain = .ok e := by
  obtain ⟨ts, n, hscan, hts⟩ := scan_of_spells h
  obtain ⟨hq⟩ := he
  obtain ⟨this, w, rfl, ht, hw⟩ := List.map_eq_cons_iff.mp hts
  rw [parse_of_callsTokens hscan (toLexeme_eq ht).1 (callsTokens_of_wellFormed hq hw)]
  rfl

/-! ### What is read can be printed -/

theorem wellFormed_of_parse {text : String} {q : Query} (h : parse text = .ok q) : (Expr.chain q).WellFormed := by
  obtain ⟨w, rest, hscan, -, hw⟩ := exists_linqExpr_of_parse h
  have hvalid : ValidTokens w := fun t ht => valid_of_scan hscan t (List.mem_append_left rest ht) (hw.ne_ending t ht)
  obtain ⟨this, v, rfl, -, hcalls⟩ := linqExpr_iff.mp hw
  exact .chain (hcalls.wellFormed hvalid.tail)

/-- The trees that are read from texts are those that can be written, and each of them is read from the text that
    it is printed as. -/
theorem wellFormed_iff_parse (e : Expr) :
    (e.WellFormed ↔ ∃ text, (parse text).map Expr.chain = .ok e) ∧
      (e.WellFormed ↔ (parse e.text).map Expr.chain = .ok e) := by
  have hread {text : String} (h : (parse text).map Expr.chain = .ok e) : e.WellFormed := by
    obtain ⟨q, hq, rfl⟩ := map_eq_ok h
    exact wellFormed_of_parse hq
  have hprint (h : e.WellFormed) : (parse e.text).map Expr.chain = .ok e := by
    refine parse_of_spells h ?_
    rw [Expr.text, String.toList_ofList]
    exact spells_layout h.valid
  exact ⟨⟨fun h => ⟨_, hprint h⟩, fun ⟨_, h⟩ => hread h⟩, hprint, hread⟩

end RecordQuery
