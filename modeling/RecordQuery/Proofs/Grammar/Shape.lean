import RecordQuery.Proofs.Grammar
import RecordQuery.Proofs.Meaning

/-! Which trees the grammar derives: a comparison has a path on one side and a literal on the other, and
    nothing stands in a condition that cannot be evaluated there. -/

namespace RecordQuery

/-- Whether a tree is a literal. -/
def Expr.isLiteral : Expr → Bool
  | .number _ | .string _ | .keyword _ => true
  | _ => false

/-- A condition in which each comparison is one of a path and a literal. -/
inductive Expr.Simple : Expr → Prop
  | logical {op : LogicalOp} {left right : Expr} (hl : Simple left) (hr : Simple right) :
      Simple (.logical ⟨op, left, right⟩)
  | pathFirst {op : CompareOp} {p : Path} {e : Expr} (he : e.isLiteral = true) : Simple (.comparison op (.path p) e)
  | literalFirst {op : CompareOp} {p : Path} {e : Expr} (he : e.isLiteral = true) : Simple (.comparison op e (.path p))
  | path {p : Path} : Simple (.path p)
  | negation {p : Path} : Simple (.negation p)
  | literal {e : Expr} (he : e.isLiteral = true) : Simple e

theorem Expr.operandFaults_of_isLiteral {e : Expr} {checks : Bool} {x : String} (h : e.isLiteral = true) :
    e.operandFaults checks x = [] := by
  cases e with
  | number n | string s | keyword k => rfl
  | _ => cases h

/-- Without a check of parameters a simple condition has no fault, whatever its paths start with. -/
theorem Expr.Simple.faults {e : Expr} {x : String} (h : e.Simple) : e.faults false x = [] := by
  have hpath (p : Path) : (Expr.path p).operandFaults false x = [] := rfl
  induction h with
  | logical _ _ ihl ihr => rw [Expr.faults, ihl, ihr, List.append_nil]
  | pathFirst he | literalFirst he => rw [Expr.faults, hpath, operandFaults_of_isLiteral he, List.append_nil]
  | path | negation => rfl
  | @literal e he =>
    cases e with
    | number n | string s | keyword k => rfl
    | _ => cases he

namespace Grammar

theorem ValueExpr.isLiteral {w : List Token} {e : Expr} (h : ValueExpr w e) : e.isLiteral = true := by
  cases h <;> rfl

mutual

theorem ComparisonExpr.simple {w : List Token} {e : Expr} : ComparisonExpr w e → e.Simple
  | .path _ => .path
  | .pathFirst _ _ he => .pathFirst he.isLiteral
  | .value he => .literal he.isLiteral
  | .valueFirst he _ _ => .literalFirst he.isLiteral
  | .group _ h _ => OrExpr.simple h
  | .negation _ _ => .negation

theorem AndChain.simple {w : List Token} {c : Condition} : AndChain w c → (Expr.logical c).Simple
  | .two ha _ hb => .logical (ComparisonExpr.simple ha) (ComparisonExpr.simple hb)
  | .more h _ hb => .logical (AndChain.simple h) (ComparisonExpr.simple hb)

theorem AndExpr.simple {w : List Token} {c : Condition} : AndExpr w c → (Expr.logical c).Simple
  | .lone ha => .logical (ComparisonExpr.simple ha) (.literal rfl)
  | .chain h => AndChain.simple h

theorem OrExpr.simple {w : List Token} {c : Condition} : OrExpr w c → (Expr.logical c).Simple
  | .one h => AndExpr.simple h
  | .more h _ hb => .logical (OrExpr.simple h) (AndExpr.simple hb)

end

end Grammar

end RecordQuery
