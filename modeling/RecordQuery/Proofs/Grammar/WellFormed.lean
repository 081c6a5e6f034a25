import RecordQuery.Proofs.Formula.Derivation
import RecordQuery.Proofs.Scan.Segmentation

/-! The trees that can be written as queries, and no others: whatever the grammar derives from the tokens of a text
    is one of them. Chains are nested to the left, so the right side of a node of `||` is a node of `&&`; whatever
    stands in parentheses is an operand of `&&`. -/

namespace RecordQuery
open Grammar

mutual

/-- What stands alone or as an operand of `&&`. -/
inductive Expr.IsTerm : Expr → Prop
  | path {p : Path} (hp : p.Writable) : Expr.IsTerm (.path p)
  | negation {p : Path} (hp : p.Writable) : Expr.IsTerm (.negation p)
  | literal {l : Literal} (hl : l.Writable) : Expr.IsTerm l.expr
  | pathFirst {p : Path} {op : CompareOp} {l : Literal} (hp : p.Writable) (hl : l.Writable) :
      Expr.IsTerm (.comparison op (.path p) l.expr)
  | literalFirst {l : Literal} {op : CompareOp} {p : Path} (hl : l.Writable) (hp : p.Writable) :
      Expr.IsTerm (.comparison op l.expr (.path p))
  | group {c : Condition} (h : Condition.IsOr c) : Expr.IsTerm (.logical c)

/-- A node of `&&`. -/
inductive Condition.IsAnd : Condition → Prop
  | mk {left right : Expr} (hl : left.IsTerm) (hr : right.IsTerm) : Condition.IsAnd ⟨.and, left, right⟩

/-- A node of `&&`, or one of `||` with nodes on both sides, the right one a node of `&&`. -/
inductive Condition.IsOr : Condition → Prop
  | and {c : Condition} (h : Condition.IsAnd c) : Condition.IsOr c
  | or {left right : Condition} (hl : Condition.IsOr left) (hr : Condition.IsAnd right) :
      Condition.IsOr ⟨.or, .logical left, .logical right⟩

end

/-- The names of the call are identifiers, and its condition is one that can be written. -/
structure Call.WellFormed (c : Call Expr) : Prop where
  method : IsName c.method.toList
  parameter : IsName c.lambda.parameter.toList
  body : Condition.IsOr c.lambda.body

/-- The tree is `this` or a chain of calls over it. -/
inductive Expr.WellFormed : Expr → Prop
  | chain {q : Query} (h : ∀ c ∈ q, Call.WellFormed c) : WellFormed (.chain q)

/-! ### What is derived -/

/-- Each of the tokens is in the language of its kind. -/
def ValidTokens (w : List Token) : Prop := ∀ t ∈ w, t.toLexeme.Valid

theorem ValidTokens.tail {t : Token} {w : List Token} (h : ValidTokens (t :: w)) : ValidTokens w :=
  fun u hu => h u (List.mem_cons_of_mem t hu)

theorem ValidTokens.left {v w : List Token} (h : ValidTokens (v ++ w)) : ValidTokens v :=
  fun u hu => h u (List.mem_append_left w hu)

theorem ValidTokens.right {v w : List Token} (h : ValidTokens (v ++ w)) : ValidTokens w :=
  fun u hu => h u (List.mem_append_right v hu)

namespace Grammar

theorem isName_of_identifier {t : Token} (hk : t.kind = .identifier) (hv : t.toLexeme.Valid) :
    IsName t.lexeme.toList := by
  simpa [Token.toLexeme, Lexeme.Valid, hk] using hv

theorem Fields.isName {w : List Token} {names : List String} (h : Fields w names) (hv : ValidTokens w) :
    ∀ s ∈ names, IsName s.toList := by
  induction h with
  | nil => nofun
  | @cons dot name w names _ hn _ ih =>
    exact List.forall_mem_cons.mpr ⟨isName_of_identifier hn (hv name (by simp)), ih hv.tail.tail⟩

theorem MemberAccess.writable {w : List Token} {p : Path} (h : MemberAccess w p) (hv : ValidTokens w) :
    p.Writable := by
  obtain ⟨hn, hf⟩ := h
  exact ⟨isName_of_identifier hn (hv _ List.mem_cons_self), hf.isName hv.tail⟩

theorem ValueExpr.exists_literal {w : List Token} {e : Expr} (h : ValueExpr w e) (hv : ValidTokens w) :
    ∃ l : Literal, l.Writable ∧ l.expr = e := by
  cases h with
  | @number t n => exact ⟨.number n, trivial, rfl⟩
  | @negative sign t n => exact ⟨.number n, trivial, rfl⟩
  | @string t ht =>
    have hquote : '"' ∉ t.lexeme.toList := by simpa [Token.toLexeme, Lexeme.Valid, ht] using hv t (by simp)
    exact ⟨.string t.lexeme, hquote, rfl⟩
  | @keyword t k => exact ⟨.keyword k, trivial, rfl⟩

mutual

theorem ComparisonExpr.isTerm {w : List Token} {e : Expr} : ComparisonExpr w e → ValidTokens w → e.IsTerm
  | .path hp, hv => .path (hp.writable hv)
  | .pathFirst hp _ he, hv => by
    obtain ⟨l, hl, rfl⟩ := he.exists_literal hv.right.tail
    exact .pathFirst (hp.writable hv.left) hl
  | .value he, hv => by
    obtain ⟨l, hl, rfl⟩ := he.exists_literal hv
    exact .literal hl
  | .valueFirst he _ hp, hv => by
    obtain ⟨l, hl, rfl⟩ := he.exists_literal hv.left
    exact .literalFirst hl (hp.writable hv.right.tail)
  | .group _ h _, hv => .group (OrExpr.isOr h hv.tail.left)
  | .negation _ hp, hv => .negation (hp.writable hv.tail)

theorem AndChain.isAnd {w : List Token} {c : Condition} : AndChain w c → ValidTokens w → Condition.IsAnd c
  | .two ha _ hb, hv => .mk (ComparisonExpr.isTerm ha hv.left) (ComparisonExpr.isTerm hb hv.right.tail)
  | .more h _ hb, hv => .mk (.group (.and (AndChain.isAnd h hv.left))) (ComparisonExpr.isTerm hb hv.right.tail)

theorem AndExpr.isAnd {w : List Token} {c : Condition} : AndExpr w c → ValidTokens w → Condition.IsAnd c
  | .lone ha, hv => .mk (ComparisonExpr.isTerm ha hv) (@Expr.IsTerm.literal (.keyword .true) trivial)
  | .chain h, hv => AndChain.isAnd h hv

theorem OrExpr.isOr {w : List Token} {c : Condition} : OrExpr w c → ValidTokens w → Condition.IsOr c
  | .one h, hv => .and (AndExpr.isAnd h hv)
  | .more h _ hb, hv => .or (OrExpr.isOr h hv.left) (AndExpr.isAnd hb hv.right.tail)

end

theorem CallTokens.wellFormed {w : List Token} {c : Call Expr} (h : CallTokens w c) (hv : ValidTokens w) :
    c.WellFormed := by
  obtain ⟨-, hn, -, ⟨hx, -, hbody⟩, -⟩ := h
  refine ⟨isName_of_identifier hn (hv _ (by simp)), isName_of_identifier hx (hv _ (by simp)), ?_⟩
  exact hbody.isOr hv.tail.tail.tail.left.tail.tail

theorem CallsTokens.wellFormed {w : List Token} {q : Query} (h : CallsTokens w q) (hv : ValidTokens w) :
    ∀ c ∈ q, Call.WellFormed c := by
  induction h with
  | nil => nofun
  | cons hc _ ih => exact List.forall_mem_cons.mpr ⟨hc.wellFormed hv.left, ih hv.right⟩

end Grammar

end RecordQuery
