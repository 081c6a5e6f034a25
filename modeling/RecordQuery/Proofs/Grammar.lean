import RecordQuery.Query.Parser

/-! The grammar of queries as relations between lists of tokens and trees, one for each rule, stated
    without the parser. Chains nest to the left: what stands last is the root of the tree. A condition
    always is a node with two sides, so an operand that stands alone is paired with `true`. -/

namespace RecordQuery.Grammar
open Text

/-- `( '.' identifier )*` -/
inductive Fields : List Token → List String → Prop
  | nil : Fields [] []
  | cons {dot name : Token} {w : List Token} {names : List String} (hd : dot.kind = .dot)
      (hn : name.kind = .identifier) (h : Fields w names) : Fields (dot :: name :: w) (name.lexeme :: names)

/-- `member-access ::= identifier ( '.' identifier )*` -/
inductive MemberAccess : List Token → Path → Prop
  | mk {name : Token} {w : List Token} {names : List String} (hn : name.kind = .identifier) (h : Fields w names) :
      MemberAccess (name :: w) ⟨name.lexeme, names⟩

/-- `value-expr ::= NUMBER | '-' NUMBER | STRING | 'true' | 'false' | 'null'`, where a number has to be
    in the range of 64-bit integers. -/
inductive ValueExpr : List Token → Expr → Prop
  | number {t : Token} {n : Int64} (ht : t.kind = .number) (hn : readInt64? t.lexeme.toList = some n) :
      ValueExpr [t] (.number n)
  | negative {sign t : Token} {n : Int64} (hs : sign.kind = .addSub) (hm : sign.lexeme = "-")
      (ht : t.kind = .number) (hn : readInt64? ('-' :: t.lexeme.toList) = some n) : ValueExpr [sign, t] (.number n)
  | string {t : Token} (ht : t.kind = .string) : ValueExpr [t] (.string t.lexeme)
  | keyword {t : Token} {k : Keyword} (ht : t.kind = .keyword) (hk : t.lexeme = k.word) : ValueExpr [t] (.keyword k)

/-- `cmp-op ::= '==' | '!=' | '<' | '>' | '<=' | '>='` -/
def IsCompareOp (t : Token) (op : CompareOp) : Prop := t.kind = .operator ∧ t.lexeme = op.symbol

mutual

/-- `comparison-expr ::= member-access [ cmp-op value-expr ] | value-expr [ cmp-op member-access ]
    | '(' logical-or-expr ')' | '!' member-access` -/
inductive ComparisonExpr : List Token → Expr → Prop
  | path {w : List Token} {p : Path} (hp : MemberAccess w p) : ComparisonExpr w (.path p)
  | pathFirst {v w : List Token} {t : Token} {p : Path} {op : CompareOp} {e : Expr} (hp : MemberAccess v p)
      (ht : IsCompareOp t op) (he : ValueExpr w e) : ComparisonExpr (v ++ t :: w) (.comparison op (.path p) e)
  | value {w : List Token} {e : Expr} (he : ValueExpr w e) : ComparisonExpr w e
  | valueFirst {v w : List Token} {t : Token} {p : Path} {op : CompareOp} {e : Expr} (he : ValueExpr v e)
      (ht : IsCompareOp t op) (hp : MemberAccess w p) : ComparisonExpr (v ++ t :: w) (.comparison op e (.path p))
  | group {w : List Token} {l r : Token} {c : Condition} (hl : l.kind = .openParen) (h : OrExpr w c)
      (hr : r.kind = .closeParen) : ComparisonExpr (l :: (w ++ [r])) (.logical c)
  | negation {w : List Token} {t : Token} {p : Path} (ht : t.isOperator "!" = true) (hp : MemberAccess w p) :
      ComparisonExpr (t :: w) (.negation p)

/-- Two or more operands with `&&` between them, nested to the left. -/
inductive AndChain : List Token → Condition → Prop
  | two {v w : List Token} {t : Token} {a b : Expr} (ha : ComparisonExpr v a) (ht : t.isOperator "&&" = true)
      (hb : ComparisonExpr w b) : AndChain (v ++ t :: w) ⟨.and, a, b⟩
  | more {v w : List Token} {t : Token} {a : Condition} {b : Expr} (ha : AndChain v a)
      (ht : t.isOperator "&&" = true) (hb : ComparisonExpr w b) : AndChain (v ++ t :: w) ⟨.and, .logical a, b⟩

/-- `logical-and-expr ::= comparison-expr ( '&&' comparison-expr )*` -/
inductive AndExpr : List Token → Condition → Prop
  | lone {w : List Token} {a : Expr} (ha : ComparisonExpr w a) : AndExpr w ⟨.and, a, .keyword .true⟩
  | chain {w : List Token} {c : Condition} (h : AndChain w c) : AndExpr w c

/-- `logical-or-expr ::= logical-and-expr ( '||' logical-and-expr )*` -/
inductive OrExpr : List Token → Condition → Prop
  | one {w : List Token} {c : Condition} (h : AndExpr w c) : OrExpr w c
  | more {v w : List Token} {t : Token} {a b : Condition} (ha : OrExpr v a) (ht : t.isOperator "||" = true)
      (hb : AndExpr w b) : OrExpr (v ++ t :: w) ⟨.or, .logical a, .logical b⟩

end

/-- `lambda-expr ::= identifier '=>' logical-or-expr` -/
inductive LambdaExpr : List Token → Lambda Expr → Prop
  | mk {name arrow : Token} {w : List Token} {c : Condition} (hn : name.kind = .identifier)
      (ha : arrow.isOperator "=>" = true) (h : OrExpr w c) :
      LambdaExpr (name :: arrow :: w) ⟨name.lexeme, c⟩

/-- `linq-expr ::= this-expr ( '.' method-name '(' lambda-expr ')' )*`, where each call is put on the
    query that stands before it, so that the first call is the innermost one. -/
inductive LinqExpr : List Token → Query → Prop
  | this {t : Token} (ht : t.kind = .this) : LinqExpr [t] []
  | call {v w : List Token} {dot name l r : Token} {q : Query} {fn : Lambda Expr} (hq : LinqExpr v q)
      (hd : dot.kind = .dot) (hn : name.kind = .identifier) (hl : l.kind = .openParen) (hf : LambdaExpr w fn)
      (hr : r.kind = .closeParen) :
      LinqExpr (v ++ dot :: name :: l :: (w ++ [r])) (q ++ [⟨name.lexeme, fn⟩])

end RecordQuery.Grammar
